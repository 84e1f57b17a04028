import Messenger.Lib.Table
import Messenger.Model.Message

/-!
# The server's services

`application/services/user_service.cpp`, `session_manager.cpp` and `chat_service.cpp`,
with `models/user.cpp` and `models/chat.cpp`: three services that keep their own maps,
keyed by user names and by chat names. A service call that fails (`std::unexpected`)
leaves its maps as they are, so a call is a function to `ServiceResult`.

The iteration order of an `unordered_set` is not specified. The members of a chat are
kept as a list without repetitions, the last to come first; no result depends on the
order.
-/

set_option autoImplicit false

namespace Messenger

open Messenger.Lib

/-- User names and chat names, `std::string`. -/
abbrev Name := Bytes

/-- A file descriptor, `int`. -/
abbrev Fd := Int

/-- `enum class ServiceError`. -/
inductive ServiceError
  | userNotFound
  | chatNotFound
  | accessDenied
  | invalidToken
  | alreadyExists
  | alreadyMember
  deriving DecidableEq, Repr

abbrev ServiceResult := Except ServiceError

/-! ## Users -/

/-- The keys of a user, as they sent them. Nothing on the server looks into them. -/
structure User where
  publicDHKey : Bytes := []
  publicIdentityKey : Bytes := []
  signature : Bytes := []
  deriving DecidableEq, Repr

/-- The key is inserted at the end of the one already there. -/
def User.setPublicDHKey (u : User) (pub : Bytes) : User :=
  { u with publicDHKey := u.publicDHKey ++ pub }

/-- The key is inserted at the end of the one already there. -/
def User.setPublicIdentityKey (u : User) (pub : Bytes) : User :=
  { u with publicIdentityKey := u.publicIdentityKey ++ pub }

def User.setKeySignature (u : User) (bytes : Bytes) : User := { u with signature := bytes }

/-- `users_`. -/
abbrev UserService := Table Name User

namespace UserService

/-- The keys of a user that is registered. -/
def setPublicKey (users : UserService) (id : Name) (pubkey identityPub signature : Bytes) :
    UserService :=
  match users id with
  | none => users
  | some user =>
    users.insert id
      (((user.setPublicDHKey pubkey).setPublicIdentityKey identityPub).setKeySignature signature)

/-- A name that is in use is refused. Otherwise the user is made first and the keys are put in
    then. -/
def registerUser (users : UserService) (name : Name) (pubkey identityPub signature : Bytes) :
    ServiceResult UserService :=
  match users name with
  | some _ => .error .alreadyExists
  | none => .ok (setPublicKey (users.insert name {}) name pubkey identityPub signature)

def findUser (users : UserService) (id : Name) : ServiceResult User :=
  match users id with
  | none => .error .userNotFound
  | some user => .ok user

def removeUser (users : UserService) (id : Name) : UserService := users.erase id

end UserService

/-! ## Sessions -/

/-- The two directions of who is on which connection, kept in two maps. Nothing forces them to be
    inverse to each other; that they are is an invariant of whoever calls `bind` and `unbind`. -/
structure SessionManager where
  fdToName : Table Fd Name := .empty
  nameToFd : Table Name Fd := .empty

namespace SessionManager

/-- Both entries are overwritten without a look at what was there. -/
def bind (m : SessionManager) (fd : Fd) (username : Name) : SessionManager where
  fdToName := m.fdToName.insert fd username
  nameToFd := m.nameToFd.insert username fd

/-- Both entries go, the second by the name that the first one had. -/
def unbind (m : SessionManager) (fd : Fd) : SessionManager :=
  match m.fdToName fd with
  | none => m
  | some username =>
    { fdToName := m.fdToName.erase fd, nameToFd := m.nameToFd.erase username }

def getUsername (m : SessionManager) (fd : Fd) : ServiceResult Name :=
  match m.fdToName fd with
  | none => .error .userNotFound
  | some username => .ok username

def getFd (m : SessionManager) (username : Name) : ServiceResult Fd :=
  match m.nameToFd username with
  | none => .error .userNotFound
  | some fd => .ok fd

end SessionManager

/-! ## Chats -/

inductive ChatType
  | private_
  | group
  | channel
  deriving DecidableEq, Repr

/-- `std::unordered_set<std::string>`. -/
abbrev MemberSet := { l : List Name // l.Nodup }

/-- A room: who is in it, and every message that was posted to it. -/
structure Chat where
  type : ChatType
  members : MemberSet := ⟨[], List.nodup_nil⟩
  messages : List Message := []

namespace Chat

def addMessage (chat : Chat) (msg : Message) : Chat :=
  { chat with messages := chat.messages ++ [msg] }

def isMember (chat : Chat) (user : Name) : Bool := user ∈ chat.members.val

/-- A private chat takes no more members, and nobody twice. -/
def addMember (chat : Chat) (user : Name) : Bool × Chat :=
  if chat.type = .private_ then (false, chat)
  else if h : user ∈ chat.members.val then (false, chat)
  else
    (true, { chat with members :=
      ⟨user :: chat.members.val, List.nodup_cons.mpr ⟨h, chat.members.property⟩⟩ })

def getMembers (chat : Chat) : List Name := chat.members.val

/-- A member leaves. Their messages stay. -/
def removeMember (chat : Chat) (user : Name) : Bool × Chat :=
  if user ∈ chat.members.val then
    (true, { chat with members := ⟨chat.members.val.erase user, chat.members.property.erase user⟩ })
  else (false, chat)

end Chat

/-- `chats_`. -/
abbrev ChatService := Table Name Chat

namespace ChatService

/-- A room with its creator in it. The error for a name that is taken is `alreadyMember`, which no
    caller looks at. -/
def createChat (chats : ChatService) (name creator : Name) : ServiceResult ChatService :=
  match chats name with
  | some _ => .error .alreadyMember
  | none => .ok (chats.insert name (Chat.addMember { type := .group } creator).2)

def addMember (chats : ChatService) (chatId user : Name) : ServiceResult ChatService :=
  match chats chatId with
  | none => .error .chatNotFound
  | some chat =>
    if chat.isMember user then .error .alreadyMember
    else .ok (chats.insert chatId (chat.addMember user).2)

/-- The members of the chat, and the chats with the message in the history. The sender is among the
    members, and gets the message too. -/
def postMessage (chats : ChatService) (chatId username : Name) (message : Message) :
    ServiceResult (List Name × ChatService) :=
  match chats chatId with
  | none => .error .chatNotFound
  | some chat =>
    if chat.isMember username then
      .ok ((chat.addMessage message).getMembers, chats.insert chatId (chat.addMessage message))
    else .error .accessDenied

/-- A room that the last member has left stays, empty. -/
def removeUserFromAllChats (chats : ChatService) (username : Name) : ChatService :=
  fun id => (chats id).map fun chat =>
    if chat.isMember username then (chat.removeMember username).2 else chat

end ChatService

/-! ## Fixed replies -/

/-- The replies of `namespace StaticResponses`. -/
inductive StaticResponse
  | chatNotFound
  | userNotFound
  | youNeedToLogin
  | wrongCommandUsage
  | emptyChatName
  | chatAlreadyExists
  | youAreAlreadyMember
  | publicKeyHasNotSet
  | youAreLoggedIn
  | youAreNotMember
  deriving DecidableEq, Repr

/-- The replies byte by byte, as the source has them: a text without metadata in the compact format,
    with its length. -/
def StaticResponse.bytes : StaticResponse → Bytes
  | .chatNotFound => [
      0x00, 0x00, 0x00, 0x00, 0x00, 0x0e, 0x43, 0x68, 0x61, 0x74, 0x20, 0x6e, 0x6f, 0x74,
      0x20, 0x66, 0x6f, 0x75, 0x6e, 0x64]
  | .userNotFound => [
      0x00, 0x00, 0x00, 0x00, 0x00, 0x16, 0x5b, 0x45, 0x52, 0x52, 0x4f, 0x52, 0x5d, 0x20,
      0x55, 0x73, 0x65, 0x72, 0x20, 0x6e, 0x6f, 0x74, 0x20, 0x66, 0x6f, 0x75, 0x6e, 0x64]
  | .youNeedToLogin => [
      0x00, 0x00, 0x00, 0x00, 0x00, 0x24, 0x5b, 0x45, 0x72, 0x72, 0x6f, 0x72, 0x5d, 0x3a,
      0x20, 0x59, 0x6f, 0x75, 0x20, 0x6d, 0x75, 0x73, 0x74, 0x20, 0x61, 0x75, 0x74, 0x68,
      0x65, 0x6e, 0x74, 0x69, 0x63, 0x61, 0x74, 0x65, 0x20, 0x66, 0x69, 0x72, 0x73, 0x74]
  | .wrongCommandUsage => [
      0x00, 0x00, 0x00, 0x00, 0x00, 0x3c, 0x5b, 0x45, 0x72, 0x72, 0x6f, 0x72, 0x5d, 0x3a,
      0x20, 0x57, 0x72, 0x6f, 0x6e, 0x67, 0x20, 0x63, 0x6f, 0x6d, 0x6d, 0x61, 0x6e, 0x64,
      0x20, 0x75, 0x73, 0x61, 0x67, 0x65, 0x2e, 0x20, 0x50, 0x6c, 0x65, 0x61, 0x73, 0x65,
      0x20, 0x75, 0x73, 0x65, 0x20, 0x2f, 0x68, 0x65, 0x6c, 0x70, 0x20, 0x74, 0x6f, 0x20,
      0x67, 0x65, 0x74, 0x20, 0x61, 0x20, 0x68, 0x65, 0x6c, 0x70]
  | .emptyChatName => [
      0x00, 0x00, 0x00, 0x00, 0x00, 0x18, 0x5b, 0x45, 0x72, 0x72, 0x6f, 0x72, 0x5d, 0x3a,
      0x20, 0x45, 0x6d, 0x70, 0x74, 0x79, 0x20, 0x63, 0x68, 0x61, 0x74, 0x20, 0x6e, 0x61,
      0x6d, 0x65]
  | .chatAlreadyExists => [
      0x00, 0x00, 0x00, 0x00, 0x00, 0x1f, 0x5b, 0x45, 0x72, 0x72, 0x6f, 0x72, 0x5d, 0x3a,
      0x20, 0x43, 0x68, 0x61, 0x74, 0x20, 0x69, 0x73, 0x20, 0x61, 0x6c, 0x72, 0x65, 0x61,
      0x64, 0x79, 0x20, 0x65, 0x78, 0x69, 0x73, 0x74, 0x73]
  | .youAreAlreadyMember => [
      0x00, 0x00, 0x00, 0x00, 0x00, 0x2c, 0x5b, 0x45, 0x72, 0x72, 0x6f, 0x72, 0x5d, 0x3a,
      0x20, 0x59, 0x6f, 0x75, 0x20, 0x61, 0x72, 0x65, 0x20, 0x61, 0x6c, 0x72, 0x65, 0x61,
      0x64, 0x79, 0x20, 0x6d, 0x65, 0x6d, 0x62, 0x65, 0x72, 0x20, 0x6f, 0x66, 0x20, 0x74,
      0x68, 0x69, 0x73, 0x20, 0x63, 0x68, 0x61, 0x74]
  | .publicKeyHasNotSet => [
      0x00, 0x00, 0x00, 0x00, 0x00, 0x24, 0x5b, 0x45, 0x72, 0x72, 0x6f, 0x72, 0x5d, 0x3a,
      0x20, 0x50, 0x75, 0x62, 0x6c, 0x69, 0x63, 0x20, 0x6b, 0x65, 0x79, 0x20, 0x68, 0x61,
      0x73, 0x20, 0x6e, 0x6f, 0x74, 0x20, 0x62, 0x65, 0x65, 0x6e, 0x20, 0x73, 0x65, 0x74]
  | .youAreLoggedIn => [
      0x00, 0x00, 0x00, 0x00, 0x00, 0x22, 0x5b, 0x45, 0x72, 0x72, 0x6f, 0x72, 0x5d, 0x3a,
      0x20, 0x59, 0x6f, 0x75, 0x20, 0x61, 0x72, 0x65, 0x20, 0x61, 0x6c, 0x72, 0x65, 0x61,
      0x64, 0x79, 0x20, 0x6c, 0x6f, 0x67, 0x67, 0x65, 0x64, 0x20, 0x69, 0x6e]
  | .youAreNotMember => [
      0x00, 0x00, 0x00, 0x00, 0x00, 0x28, 0x5b, 0x45, 0x72, 0x72, 0x6f, 0x72, 0x5d, 0x3a,
      0x20, 0x59, 0x6f, 0x75, 0x20, 0x61, 0x72, 0x65, 0x20, 0x6e, 0x6f, 0x74, 0x20, 0x6d,
      0x65, 0x6d, 0x62, 0x65, 0x72, 0x20, 0x6f, 0x66, 0x20, 0x74, 0x68, 0x69, 0x73, 0x20,
      0x63, 0x68, 0x61, 0x74]

end Messenger
