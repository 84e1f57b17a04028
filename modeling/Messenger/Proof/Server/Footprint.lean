import Messenger.Lib.Patch
import Messenger.Proof.Server.Broadcast
import Messenger.Proof.Server.Leaving

/-!
# What a request looks at, and what it writes

The three tables of the services have four kinds of places: a user under a name, the name on a
connection, the connection of a name, and a room under its name. A room is seen without the times
in its history, and what has been sent is seen as bytes: the messages that the server makes are in
the compact format, which carries no time.

Each of the five requests that clients make most of makes a patch that is determined by a few
places (`request_patches`). What it looks at is in `Reads` and what it writes in `Writes`. The
members of a room are looked up one by one, so `Reads` depends on the state.

A patch is determined by what the request looks at if from every other state that agrees there, at
any time, the same patch is made. So each proof below decides a case at one state `s` and then has
to follow the handler at another one, `s'`, with the facts of `s` brought over by `Alike`.
-/

set_option autoImplicit false

namespace Messenger

open Messenger.Lib

/-! ## Times -/

/-- A message but for its time. -/
def Message.untimed (msg : Message) : Message :=
  { msg with header := { msg.header with timestamp := 0 } }

/-- A room but for the times in its history. Two requests that are handled in another order have
    other times, so without this no two posts would commute with anything. -/
def Chat.untimed (chat : Chat) : Chat :=
  { chat with messages := chat.messages.map Message.untimed }

/-- Who is in a room does not depend on the times in its history. -/
theorem untimed_addMember (chat : Chat) (u : Name) :
    (chat.addMember u).2.untimed = (chat.untimed.addMember u).2 := by
  unfold Chat.addMember
  split
  case isTrue h => rw [if_pos (show chat.untimed.type = _ from h)]
  case isFalse h =>
    rw [if_neg (show ¬chat.untimed.type = _ from h)]
    split
    case isTrue hu => rw [dif_pos (show u ∈ chat.untimed.members.val from hu)]
    case isFalse hu =>
      rw [dif_neg (show ¬u ∈ chat.untimed.members.val from hu)]
      rfl

theorem untimed_addMessage (chat : Chat) (msg : Message) :
    (chat.addMessage msg).untimed = chat.untimed.addMessage msg.untimed := by
  unfold Chat.addMessage Chat.untimed
  rw [List.map_append]
  rfl

theorem members_of_untimed {chat chat' : Chat} (h : chat'.untimed = chat.untimed) :
    chat'.members = chat.members := by
  have hmembers : chat'.untimed.members = chat.untimed.members := congrArg Chat.members h
  exact hmembers

theorem isMember_of_untimed {chat chat' : Chat} (h : chat'.untimed = chat.untimed) (u : Name) :
    chat'.isMember u = chat.isMember u := by
  unfold Chat.isMember
  rw [members_of_untimed h]

/-- The time is no part of the compact format, so what members receive is the same bytes. -/
theorem serialize_untimed {msg : Message} (h : msg.useExtendedFormat = false) :
    Serializer.serialize msg.untimed = Serializer.serialize msg := by
  have h' : msg.untimed.useExtendedFormat = false := h
  unfold Serializer.serialize
  rw [h, h', if_pos Bool.not_false, if_pos Bool.not_false]
  rfl

/-- What `construct` makes. -/
def builtMessage (now : UInt64) (payload : Bytes) (metadata : List Bytes) (type : MessageType)
    (length : UInt32) : Message where
  header := { type := type, length := length, timestamp := now }
  metalen := UInt8.ofNat metadata.length
  metadata := metadata
  payload := payload

/-- The time is no reason for a message not to be made, and it is not sent. So either the message is
    made in every context, with the same bytes, or it is made in none. -/
theorem construct_cases (payload : Bytes) (metalen : UInt8) (metadata : List Bytes)
    (type : MessageType) :
    (∃ m₀ : Message, ∀ s, ∃ msg, construct payload metalen metadata type s = .ok msg s ∧
      msg.untimed = m₀ ∧ Serializer.serialize msg = Serializer.serialize m₀) ∨
    ∀ s, ∃ e, construct payload metalen metadata type s = .error e s := by
  have hconstruct (s : ServerContext) : construct payload metalen metadata type s
      = liftExcept (Message.new s.now payload metalen metadata type) s := rfl
  -- whether there is a message is a matter of its size
  cases hsize : computeSerializedSize (UInt8.ofNat metadata.length) metadata payload with
  | error e =>
    refine .inr fun s => ⟨e, ?_⟩
    have hnew : Message.new s.now payload metalen metadata type = .error e := by
      unfold Message.new
      dsimp only
      rw [hsize]
      rfl
    rw [hconstruct, hnew]
    rfl
  | ok length =>
    refine .inl ⟨builtMessage 0 payload metadata type length, fun s => ?_⟩
    have hnew : Message.new s.now payload metalen metadata type
        = .ok (builtMessage s.now payload metadata type length) := by
      unfold Message.new
      dsimp only
      rw [hsize]
      rfl
    have hcompact : (builtMessage s.now payload metadata type length).useExtendedFormat = false :=
      rfl
    refine ⟨_, ?_, rfl, (serialize_untimed hcompact).symm⟩
    rw [hconstruct, hnew]
    rfl

/-! ## Computations that only send, whatever the state -/

/-- What has been sent, as bytes. -/
def ServerContext.sentBytes (s : ServerContext) : List (Fd × Bytes) :=
  s.outbox.map fun sent => (sent.1, sent.2.bytes)

/-- From every context the computation sends `out`, and does nothing else to the services. -/
def Emits {α : Type} (x : ServerM α) (out : List (Fd × Bytes)) : Prop :=
  ∀ s, (finalState x s).services = s.services ∧ (finalState x s).sentBytes = s.sentBytes ++ out

theorem sentBytes_send (s : ServerContext) (fd : Fd) (packet : Packet) :
    (finalState (send fd packet) s).sentBytes = s.sentBytes ++ [(fd, packet.bytes)] := by
  show ((s.outbox ++ [(fd, packet)]).map _) = _
  rw [List.map_append]
  rfl

theorem Emits.send (fd : Fd) (packet : Packet) :
    Emits (Messenger.send fd packet) [(fd, packet.bytes)] :=
  fun s => ⟨rfl, sentBytes_send s fd packet⟩

/-- A message is made and sent, or else nothing is, and which of the two is the same in every
    context. -/
theorem Emits.construct_send (payload : Bytes) (metalen : UInt8) (metadata : List Bytes)
    (type : MessageType) (fd : Fd) :
    ∃ out, Emits (construct payload metalen metadata type >>= fun msg =>
      Messenger.send fd (.serialized msg)) out := by
  rcases construct_cases payload metalen metadata type with ⟨m₀, hmade⟩ | hfails
  · refine ⟨[(fd, Serializer.serialize m₀)], fun s => ?_⟩
    obtain ⟨msg, hrun, -, hbytes⟩ := hmade s
    rw [finalState_bind_ok hrun]
    refine ⟨rfl, ?_⟩
    rw [sentBytes_send, ← hbytes]
    rfl
  · refine ⟨[], fun s => ?_⟩
    obtain ⟨e, hrun⟩ := hfails s
    rw [finalState_bind_error hrun, List.append_nil]
    exact ⟨rfl, rfl⟩

theorem Emits.sendText (fd : Fd) (text : Bytes) : ∃ out, Emits (Messenger.sendText fd text) out :=
  Emits.construct_send text 0 [] .text fd

theorem sentBytes_sendCopies (s : ServerContext) (msg : Message) (fds : List Fd) :
    (s.sendCopies msg fds).sentBytes
      = s.sentBytes ++ fds.map fun g => (g, Serializer.serialize msg) := by
  unfold ServerContext.sendCopies ServerContext.sentBytes
  rw [List.map_append, List.map_map]
  rfl

/-! ## Places -/

/-- Where the services keep things. -/
inductive Place
  | user (u : Name)
  | nameOf (fd : Fd)
  | fdOf (u : Name)
  | room (c : Name)

abbrev Place.Value : Place → Type
  | .user _ => Option User
  | .nameOf _ => Option Name
  | .fdOf _ => Option Fd
  | .room _ => Option Chat

/-- What is at a place. -/
def ServiceState.look (s : ServiceState) : (l : Place) → l.Value
  | .user u => s.users u
  | .nameOf fd => s.sessions.fdToName fd
  | .fdOf u => s.sessions.nameToFd u
  | .room c => (s.chats c).map Chat.untimed

def ServerContext.look (s : ServerContext) : (l : Place) → l.Value := s.services.look

abbrev ServerPatch := Patch Place.Value (Fd × Bytes)

/-- One room is written. -/
def roomPatch (c : Name) (chat : Chat) (out : List (Fd × Bytes)) : ServerPatch where
  writes
    | .room c' => if c' = c then some (some chat) else none
    | _ => none
  output := out

/-- A name comes online. -/
def loginPatch (fd : Fd) (u : Name) (keys : User) (out : List (Fd × Bytes)) : ServerPatch where
  writes
    | .user v => if v = u then some (some keys) else none
    | .nameOf g => if g = fd then some (some u) else none
    | .fdOf v => if v = u then some (some fd) else none
    | .room _ => none
  output := out

theorem look_insertRoom (s : ServiceState) (c : Name) (chat : Chat) (out : List (Fd × Bytes)) :
    ServiceState.look { s with chats := s.chats.insert c chat }
      = (roomPatch c chat.untimed out).apply s.look := by
  funext l
  cases l with
  | room c' =>
    unfold Patch.apply roomPatch ServiceState.look
    by_cases h : c' = c
    · subst h
      simp
    · simp [h, Table.insert_of_ne h]
  | user u => rfl
  | nameOf fd => rfl
  | fdOf u => rfl

theorem look_login (s : ServiceState) (fd : Fd) (u : Name) (keys : User)
    (out : List (Fd × Bytes)) :
    ServiceState.look { s with users := s.users.insert u keys, sessions := s.sessions.bind fd u }
      = (loginPatch fd u keys out).apply s.look := by
  funext l
  cases l with
  | user v =>
    unfold Patch.apply loginPatch ServiceState.look
    by_cases h : v = u
    · subst h
      simp
    · simp [h, Table.insert_of_ne h]
  | nameOf g =>
    unfold Patch.apply loginPatch ServiceState.look SessionManager.bind
    by_cases h : g = fd
    · subst h
      simp
    · simp [h, Table.insert_of_ne h]
  | fdOf v =>
    unfold Patch.apply loginPatch ServiceState.look SessionManager.bind
    by_cases h : v = u
    · subst h
      simp
    · simp [h, Table.insert_of_ne h]
  | room c => rfl

/-! ## The handlers, case by case -/

section Handlers

variable {s : ServerContext} {u c : Name}

theorem login_online (h : s.sessions.fdToName s.fd = some u) (v dh identity sig : Bytes) :
    ServerApplicationService.login v dh identity sig s = send s.fd (.static .youAreLoggedIn) s := by
  unfold ServerApplicationService.login
  rw [get_bind_run, getUsername_ok_iff.mpr h]

theorem login_taken (h : s.sessions.fdToName s.fd = none) {user : User} (hu : s.users u = some user)
    (dh identity sig : Bytes) :
    ServerApplicationService.login u dh identity sig s
      = send s.fd (.static .publicKeyHasNotSet) s := by
  unfold ServerApplicationService.login
  rw [get_bind_run, getUsername_of_none h]
  dsimp only
  unfold UserService.registerUser
  rw [hu]

theorem createRoom_anonymous (h : s.sessions.fdToName s.fd = none) :
    ServerApplicationService.createRoom c s = send s.fd (.static .youNeedToLogin) s := by
  unfold ServerApplicationService.createRoom
  rw [get_bind_run, getUsername_of_none h]

theorem createRoom_unnamed (h : s.sessions.fdToName s.fd = some u) :
    ServerApplicationService.createRoom [] s = send s.fd (.static .emptyChatName) s := by
  unfold ServerApplicationService.createRoom
  rw [get_bind_run, getUsername_ok_iff.mpr h]
  rfl

theorem createRoom_exists (h : s.sessions.fdToName s.fd = some u) (hc : c ≠ []) {chat : Chat}
    (hchat : s.chats c = some chat) :
    ServerApplicationService.createRoom c s = send s.fd (.static .chatAlreadyExists) s := by
  unfold ServerApplicationService.createRoom
  rw [get_bind_run, getUsername_ok_iff.mpr h]
  dsimp only
  rw [if_neg (by simpa using hc)]
  unfold ChatService.createChat
  rw [hchat]

theorem createRoom_run (h : s.sessions.fdToName s.fd = some u) (hc : c ≠ [])
    (hchat : s.chats c = none) :
    ServerApplicationService.createRoom c s
      = sendText s.fd (bytes "Room " ++ c ++ bytes " was created!")
          { s with chats := s.chats.insert c (Chat.addMember { type := .group } u).2 } := by
  unfold ServerApplicationService.createRoom
  rw [get_bind_run, getUsername_ok_iff.mpr h]
  dsimp only
  rw [if_neg (by simpa using hc)]
  unfold ChatService.createChat
  rw [hchat]
  rfl

theorem joinRoom_anonymous (h : s.sessions.fdToName s.fd = none) :
    ServerApplicationService.joinRoom c s = send s.fd (.static .youNeedToLogin) s := by
  unfold ServerApplicationService.joinRoom
  rw [get_bind_run, getUsername_of_none h]

theorem joinRoom_unnamed (h : s.sessions.fdToName s.fd = some u) :
    ServerApplicationService.joinRoom [] s = send s.fd (.static .emptyChatName) s := by
  unfold ServerApplicationService.joinRoom
  rw [get_bind_run, getUsername_ok_iff.mpr h]
  rfl

theorem joinRoom_missing (h : s.sessions.fdToName s.fd = some u) (hc : c ≠ [])
    (hchat : s.chats c = none) :
    ServerApplicationService.joinRoom c s = send s.fd (.static .chatNotFound) s := by
  unfold ServerApplicationService.joinRoom
  rw [get_bind_run, getUsername_ok_iff.mpr h]
  dsimp only
  rw [if_neg (by simpa using hc)]
  unfold ChatService.addMember
  rw [hchat]

theorem joinRoom_again (h : s.sessions.fdToName s.fd = some u) (hc : c ≠ []) {chat : Chat}
    (hchat : s.chats c = some chat) (hu : chat.isMember u = true) :
    ServerApplicationService.joinRoom c s = send s.fd (.static .youAreAlreadyMember) s := by
  unfold ServerApplicationService.joinRoom
  rw [get_bind_run, getUsername_ok_iff.mpr h]
  dsimp only
  rw [if_neg (by simpa using hc)]
  unfold ChatService.addMember
  rw [hchat]
  dsimp only
  rw [if_pos hu]

theorem joinRoom_run (h : s.sessions.fdToName s.fd = some u) (hc : c ≠ []) {chat : Chat}
    (hchat : s.chats c = some chat) (hu : ¬chat.isMember u = true) :
    ServerApplicationService.joinRoom c s
      = sendText s.fd (bytes "You joined the room " ++ c)
          { s with chats := s.chats.insert c (chat.addMember u).2 } := by
  unfold ServerApplicationService.joinRoom
  rw [get_bind_run, getUsername_ok_iff.mpr h]
  dsimp only
  rw [if_neg (by simpa using hc)]
  unfold ChatService.addMember
  rw [hchat]
  dsimp only
  rw [if_neg hu]
  rfl

theorem sendGroupMessage_without_login (h : s.sessions.fdToName s.fd = none) (message : Message) :
    ServerApplicationService.sendGroupMessage c message s
      = send s.fd (.static .youNeedToLogin) s := by
  unfold ServerApplicationService.sendGroupMessage
  rw [get_bind_run, getUsername_of_none h]

theorem sendGroupMessage_missing (h : s.sessions.fdToName s.fd = some u) (hchat : s.chats c = none)
    (message : Message) :
    ServerApplicationService.sendGroupMessage c message s
      = send s.fd (.static .chatNotFound) s := by
  unfold ServerApplicationService.sendGroupMessage
  rw [get_bind_run, getUsername_ok_iff.mpr h]
  dsimp only
  unfold ChatService.postMessage
  rw [hchat]

theorem sendGroupMessage_outside (h : s.sessions.fdToName s.fd = some u) {chat : Chat}
    (hchat : s.chats c = some chat) (hu : ¬chat.isMember u = true) (message : Message) :
    ServerApplicationService.sendGroupMessage c message s
      = send s.fd (.static .youAreNotMember) s := by
  unfold ServerApplicationService.sendGroupMessage
  rw [get_bind_run, getUsername_ok_iff.mpr h]
  dsimp only
  unfold ChatService.postMessage
  rw [hchat]
  dsimp only
  rw [if_neg hu]

theorem sendPubkey_unnamed :
    ServerApplicationService.sendPubkey [] s = send s.fd (.static .wrongCommandUsage) s := rfl

theorem sendPubkey_unknown (hu : u ≠ []) (huser : s.users u = none) :
    ServerApplicationService.sendPubkey u s = send s.fd (.static .userNotFound) s := by
  unfold ServerApplicationService.sendPubkey UserService.findUser
  rw [get_bind_run, if_neg (by simpa using hu), huser]

theorem sendPubkey_known (hu : u ≠ []) {user : User} (huser : s.users u = some user) :
    ServerApplicationService.sendPubkey u s
      = (construct user.publicDHKey 4 [[CommandType.getPubkey.toByte], u, user.publicIdentityKey,
          user.signature] .response >>= fun msg => send s.fd (.serialized msg)) s := by
  unfold ServerApplicationService.sendPubkey UserService.findUser
  rw [get_bind_run, if_neg (by simpa using hu), huser]

end Handlers

/-! ## Requests -/

/-- The requests that are compared. -/
inductive RequestKind
  | login
  | room
  | join
  | send
  | getpub
  deriving DecidableEq, Repr

/-- The code with which a client asks for it. -/
def RequestKind.code : RequestKind → CommandType
  | .login => .login
  | .room => .makeRoom
  | .join => .join
  | .send => .send
  | .getpub => .getPubkey

/-- The handler that carries it out. -/
def RequestKind.command : RequestKind → ServerCommand
  | .login => .login
  | .room => .room
  | .join => .join
  | .send => .send
  | .getpub => .getpub

/-- A request that comes in on the connection `fd`. -/
structure ClientRequest where
  fd : Fd
  kind : RequestKind
  msg : Message
  isCommand : msg.IsCommand kind.code

namespace ClientRequest

variable (r : ClientRequest)

/-- The first argument is a user's name or a room's. -/
def argument : Name := r.msg.getMeta 1

/-- The users that the request names. -/
def names : List Name :=
  match r.kind with
  | .login | .getpub => [r.argument]
  | .room | .join | .send => []

/-- The rooms that the request names. -/
def rooms : List Name :=
  match r.kind with
  | .login | .getpub => []
  | .room | .join | .send => [r.argument]

def event (now : UInt64) : ServerEvent := .message now r.fd r.msg

/-- The context in which the request is carried out. -/
def context (now : UInt64) (s : ServerContext) : ServerContext := { s with now := now, fd := r.fd }

/-- A request is carried out by its handler, with the connection set. The bus finds the handler for
    each of the five codes. -/
theorem step_eq (now : UInt64) (s : ServerContext) :
    s.step (r.event now) = finalState (r.kind.command.execute r.msg) (r.context now s) := by
  have hcmd : (CommandType.ofByte r.kind.code.toByte).onServer = some r.kind.command := by
    cases r.kind <;> rfl
  unfold event
  rw [step_command r.isCommand.type, r.isCommand.dispatch _ hcmd]
  rfl

/-- What the request looks at. -/
inductive Reads (s : ServiceState) : Place → Prop
  | session : Reads s (.nameOf r.fd)
  | user {u : Name} : u ∈ r.names → Reads s (.user u)
  | room {c : Name} : c ∈ r.rooms → Reads s (.room c)
  | member {c u : Name} {chat : Chat} :
      c ∈ r.rooms → s.chats c = some chat → u ∈ chat.getMembers → Reads s (.fdOf u)

/-- What the request may write. Only a login under a name that is free writes to the directory
    and the sessions. -/
inductive Writes (s : ServiceState) : Place → Prop
  | user {u : Name} : u ∈ r.names → s.users u = none → Writes s (.user u)
  | session : Writes s (.nameOf r.fd)
  | connection {u : Name} : u ∈ r.names → s.users u = none → Writes s (.fdOf u)
  | room {c : Name} : c ∈ r.rooms → Writes s (.room c)

/-- `s'` looks like `s` to the request. -/
abbrev Alike (s s' : ServerContext) : Prop := SameAt (r.Reads s.services) s.look s'.look

/-- At `s` the request makes the patch `p`, and so it does at every state that looks the same to it.
    What it writes is among what `Writes` allows. -/
structure HasPatch (s : ServerContext) (p : ServerPatch) : Prop where
  patches : Patches ServerContext.look ServerContext.sentBytes
    (fun now s => s.step (r.event now)) s (r.Reads s.services) p
  writes : ∀ l, p.writes l ≠ none → r.Writes s.services l

variable {r} {s : ServerContext}

/-- A request that comes down to some writing and then some sending. What is sent is the same from
    every context, so all that is to be shown at a state that looks the same is what has been
    written. -/
theorem HasPatch.of_emits {x : ServerM Unit} {p : ServerPatch} (hx : Emits x p.output)
    (hwrites : ∀ l, p.writes l ≠ none → r.Writes s.services l)
    (hrun : ∀ now s', r.Alike s s' → ∃ s₁,
      r.kind.command.execute r.msg (r.context now s') = x s₁ ∧ s₁.look = p.apply s'.look ∧
        s₁.sentBytes = s'.sentBytes) : r.HasPatch s p := by
  refine ⟨fun now s' halike => ?_, hwrites⟩
  obtain ⟨s₁, hexecute, hlook, hsent⟩ := hrun now s' halike
  obtain ⟨hservices, hout⟩ := hx s₁
  dsimp only
  rw [step_eq, finalState_congr hexecute]
  refine ⟨?_, ?_⟩
  · rw [← hlook]
    exact congrArg ServiceState.look hservices
  · rw [hout, hsent]

theorem HasPatch.of_answer {x : ServerM Unit} {out : List (Fd × Bytes)} (hx : Emits x out)
    (hrun : ∀ now s', r.Alike s s' →
      r.kind.command.execute r.msg (r.context now s') = x (r.context now s')) :
    ∃ p, r.HasPatch s p := by
  refine ⟨.silent _ out, .of_emits hx (fun l hl => absurd rfl hl) fun now s' halike => ?_⟩
  exact ⟨r.context now s', hrun now s' halike, rfl, rfl⟩

/-! ### One kind after the other -/

section Alike

variable {s' : ServerContext} (h : r.Alike s s')

include h

theorem Alike.session : s'.sessions.fdToName r.fd = s.sessions.fdToName r.fd := h _ .session

theorem Alike.user {u : Name} (hu : u ∈ r.names) : s'.users u = s.users u := h _ (.user hu)

theorem Alike.room_none {c : Name} (hc : c ∈ r.rooms) (hchat : s.chats c = none) :
    s'.chats c = none := by
  have hroom : (s'.chats c).map Chat.untimed = (s.chats c).map Chat.untimed := h _ (.room hc)
  rw [hchat] at hroom
  exact Option.map_eq_none_iff.mp hroom

theorem Alike.room_some {c : Name} {chat : Chat} (hc : c ∈ r.rooms)
    (hchat : s.chats c = some chat) :
    ∃ chat', s'.chats c = some chat' ∧ chat'.untimed = chat.untimed := by
  have hroom : (s'.chats c).map Chat.untimed = (s.chats c).map Chat.untimed := h _ (.room hc)
  rw [hchat] at hroom
  exact Option.map_eq_some_iff.mp hroom

/-- The members of a room have the same connections. This is why they are among what the request
    looks at: a login or an exit of a member changes where the copies go. -/
theorem Alike.connections {c : Name} {chat : Chat} (hc : c ∈ r.rooms)
    (hchat : s.chats c = some chat) :
    s'.connections chat.getMembers = s.connections chat.getMembers :=
  List.filterMap_congr fun _ hu => h _ (.member hc hchat hu)

end Alike

theorem roomPatch_writes {c : Name} {chat : Chat} {out : List (Fd × Bytes)} (hc : c ∈ r.rooms)
    (l : Place) (hl : (roomPatch c chat out).writes l ≠ none) : r.Writes s.services l := by
  cases l with
  | room c' =>
    obtain rfl : c' = c := by
      by_contra hne
      exact hl (if_neg hne)
    exact .room hc
  | user u => exact absurd rfl hl
  | nameOf fd => exact absurd rfl hl
  | fdOf u => exact absurd rfl hl

/-- A login that is accepted writes three places, two of them under a name that was free. -/
theorem loginPatch_writes {u : Name} {keys : User} {out : List (Fd × Bytes)} (hu : u ∈ r.names)
    (hfree : s.users u = none) (l : Place)
    (hl : (loginPatch r.fd u keys out).writes l ≠ none) : r.Writes s.services l := by
  cases l with
  | user v =>
    obtain rfl : v = u := by
      by_contra hne
      exact hl (if_neg hne)
    exact .user hu hfree
  | nameOf g =>
    obtain rfl : g = r.fd := by
      by_contra hne
      exact hl (if_neg hne)
    exact .session
  | fdOf v =>
    obtain rfl : v = u := by
      by_contra hne
      exact hl (if_neg hne)
    exact .connection hu hfree
  | room c => exact absurd rfl hl

/-- A login: refused on a connection that has a name, refused under a name that is taken, or
    accepted. -/
theorem login_patches (hkind : r.kind = .login) (s : ServerContext) : ∃ p, r.HasPatch s p := by
  have hu : r.argument ∈ r.names := by simp [names, hkind]
  have hexecute (s' : ServerContext) : r.kind.command.execute r.msg s'
      = ServerApplicationService.login r.argument (r.msg.getMeta 2) (r.msg.getMeta 3)
          (r.msg.getMeta 4) s' := by
    rw [hkind]
    rfl
  cases hname : s.sessions.fdToName r.fd with
  | some v =>
    refine HasPatch.of_answer (.send r.fd (.static .youAreLoggedIn)) fun now s' halike => ?_
    rw [hexecute]
    exact login_online (s := r.context now s') (halike.session.trans hname) ..
  | none =>
    cases huser : s.users r.argument with
    | some user =>
      refine HasPatch.of_answer (.send r.fd (.static .publicKeyHasNotSet)) fun now s' halike => ?_
      rw [hexecute]
      exact login_taken (s := r.context now s') (halike.session.trans hname)
        ((halike.user hu).trans huser) ..
    | none =>
      obtain ⟨out, hout⟩ := Emits.sendText r.fd (bytes "Hello, " ++ r.argument ++ bytes "!")
      refine ⟨loginPatch r.fd r.argument r.msg.loginKeys out,
        .of_emits hout (loginPatch_writes hu huser) fun now s' halike => ?_⟩
      have hrun := login_run (s := r.context now s') (r.msg.getMeta 2) (r.msg.getMeta 3)
        (r.msg.getMeta 4) (halike.session.trans hname) ((halike.user hu).trans huser)
      exact ⟨_, (hexecute _).trans hrun, look_login s'.services r.fd r.argument _ out, rfl⟩

/-- Making a room. The three refusals look at the session, the name and the room, in this order, and
    so does the case in which the room is made. -/
theorem room_patches (hkind : r.kind = .room) (s : ServerContext) : ∃ p, r.HasPatch s p := by
  have hc : r.argument ∈ r.rooms := by simp [rooms, hkind]
  have hexecute (s' : ServerContext) : r.kind.command.execute r.msg s'
      = ServerApplicationService.createRoom r.argument s' := by
    rw [hkind]
    rfl
  cases hname : s.sessions.fdToName r.fd with
  | none =>
    refine HasPatch.of_answer (.send r.fd (.static .youNeedToLogin)) fun now s' halike => ?_
    rw [hexecute]
    exact createRoom_anonymous (s := r.context now s') (halike.session.trans hname)
  | some u =>
    by_cases hempty : r.argument = []
    · refine HasPatch.of_answer (.send r.fd (.static .emptyChatName)) fun now s' halike => ?_
      rw [hexecute, hempty]
      exact createRoom_unnamed (s := r.context now s') (halike.session.trans hname)
    cases hchat : s.chats r.argument with
    | some chat =>
      refine HasPatch.of_answer (.send r.fd (.static .chatAlreadyExists)) fun now s' halike => ?_
      obtain ⟨chat', hchat', -⟩ := halike.room_some hc hchat
      rw [hexecute]
      exact createRoom_exists (s := r.context now s') (halike.session.trans hname) hempty hchat'
    | none =>
      obtain ⟨out, hout⟩ :=
        Emits.sendText r.fd (bytes "Room " ++ r.argument ++ bytes " was created!")
      refine ⟨roomPatch r.argument (Chat.addMember { type := .group } u).2.untimed out,
        .of_emits hout (roomPatch_writes hc) fun now s' halike => ?_⟩
      have hrun := createRoom_run (s := r.context now s') (halike.session.trans hname) hempty
        (halike.room_none hc hchat)
      exact ⟨_, (hexecute _).trans hrun, look_insertRoom s'.services r.argument _ out, rfl⟩

/-- Joining. The last case is the hard one: the room that is written holds the history of `s'`,
    which agrees with that of `s` but for the times, so the patch cannot be made of the room of `s`
    as it is. -/
theorem join_patches (hkind : r.kind = .join) (s : ServerContext) : ∃ p, r.HasPatch s p := by
  have hc : r.argument ∈ r.rooms := by simp [rooms, hkind]
  have hexecute (s' : ServerContext) : r.kind.command.execute r.msg s'
      = ServerApplicationService.joinRoom r.argument s' := by
    rw [hkind]
    rfl
  cases hname : s.sessions.fdToName r.fd with
  | none =>
    refine HasPatch.of_answer (.send r.fd (.static .youNeedToLogin)) fun now s' halike => ?_
    rw [hexecute]
    exact joinRoom_anonymous (s := r.context now s') (halike.session.trans hname)
  | some u =>
    by_cases hempty : r.argument = []
    · refine HasPatch.of_answer (.send r.fd (.static .emptyChatName)) fun now s' halike => ?_
      rw [hexecute, hempty]
      exact joinRoom_unnamed (s := r.context now s') (halike.session.trans hname)
    cases hchat : s.chats r.argument with
    | none =>
      refine HasPatch.of_answer (.send r.fd (.static .chatNotFound)) fun now s' halike => ?_
      rw [hexecute]
      exact joinRoom_missing (s := r.context now s') (halike.session.trans hname) hempty
        (halike.room_none hc hchat)
    | some chat =>
      by_cases hmember : chat.isMember u = true
      · refine HasPatch.of_answer (.send r.fd (.static .youAreAlreadyMember))
          fun now s' halike => ?_
        obtain ⟨chat', hchat', huntimed⟩ := halike.room_some hc hchat
        rw [← isMember_of_untimed huntimed] at hmember
        rw [hexecute]
        exact joinRoom_again (s := r.context now s') (halike.session.trans hname) hempty hchat'
          hmember
      · -- the room of `s'` may have other times in its history, so the patch is made of what is
        -- left without them
        obtain ⟨out, hout⟩ := Emits.sendText r.fd (bytes "You joined the room " ++ r.argument)
        refine ⟨roomPatch r.argument (chat.untimed.addMember u).2 out,
          .of_emits hout (roomPatch_writes hc) fun now s' halike => ?_⟩
        obtain ⟨chat', hchat', huntimed⟩ := halike.room_some hc hchat
        rw [← isMember_of_untimed huntimed] at hmember
        have hrun := joinRoom_run (s := r.context now s') (halike.session.trans hname) hempty hchat'
          hmember
        refine ⟨_, (hexecute _).trans hrun, ?_, rfl⟩
        rw [← huntimed, ← untimed_addMember]
        exact look_insertRoom s'.services r.argument _ out

/-- Asking for keys writes nothing. It looks at the directory only, not at the session. -/
theorem getpub_patches (hkind : r.kind = .getpub) (s : ServerContext) : ∃ p, r.HasPatch s p := by
  have hu : r.argument ∈ r.names := by simp [names, hkind]
  have hexecute (s' : ServerContext) : r.kind.command.execute r.msg s'
      = ServerApplicationService.sendPubkey r.argument s' := by
    rw [hkind]
    rfl
  by_cases hempty : r.argument = []
  · refine HasPatch.of_answer (.send r.fd (.static .wrongCommandUsage)) fun now s' halike => ?_
    rw [hexecute, hempty]
    exact sendPubkey_unnamed
  cases huser : s.users r.argument with
  | none =>
    refine HasPatch.of_answer (.send r.fd (.static .userNotFound)) fun now s' halike => ?_
    rw [hexecute]
    exact sendPubkey_unknown (s := r.context now s') hempty ((halike.user hu).trans huser)
  | some user =>
    obtain ⟨out, hout⟩ := Emits.construct_send user.publicDHKey 4 [[CommandType.getPubkey.toByte],
      r.argument, user.publicIdentityKey, user.signature] .response r.fd
    refine HasPatch.of_answer hout fun now s' halike => ?_
    rw [hexecute]
    exact sendPubkey_known (s := r.context now s') hempty ((halike.user hu).trans huser)

/-- The message is posted, and a copy goes to each member. The patch is made of the untimed room and
    the untimed message, and what is sent is known because the members' connections are the same. -/
theorem post_patches (hc : r.argument ∈ r.rooms) {u : Name} {chat : Chat} {m₀ : Message}
    (hname : s.sessions.fdToName r.fd = some u) (hchat : s.chats r.argument = some chat)
    (hmember : chat.isMember u = true)
    (hexecute : ∀ s', ∃ msg, r.kind.command.execute r.msg s'
      = ServerApplicationService.sendGroupMessage r.argument msg s' ∧ msg.untimed = m₀ ∧
        Serializer.serialize msg = Serializer.serialize m₀) :
    ∃ p, r.HasPatch s p := by
  refine ⟨roomPatch r.argument (chat.untimed.addMessage m₀)
    ((s.connections chat.getMembers).map fun g => (g, Serializer.serialize m₀)),
    fun now s' (halike : r.Alike s s') => ?_, roomPatch_writes hc⟩
  obtain ⟨chat', hchat', huntimed⟩ := halike.room_some hc hchat
  obtain ⟨msg, hmsg, rfl, hbytes⟩ := hexecute (r.context now s')
  have hmember' : u ∈ chat'.getMembers := by
    rw [← isMember_of_untimed huntimed] at hmember
    exact of_decide_eq_true hmember
  have hrun := sendGroupMessage_member (s := r.context now s')
    (getUsername_ok_iff.mpr (halike.session.trans hname)) hchat' hmember' msg
  have hmembers : chat'.getMembers = chat.getMembers :=
    congrArg Subtype.val (members_of_untimed huntimed)
  dsimp only
  rw [step_eq, finalState_ok (hmsg.trans hrun), sentBytes_sendCopies, hmembers, hbytes]
  refine ⟨?_, ?_⟩
  · rw [← huntimed, ← untimed_addMessage]
    exact look_insertRoom s'.services r.argument (chat'.addMessage msg) _
  · -- the connections of the members are among what the request looks at
    have hconnections : (r.context now s').connections chat.getMembers
        = s.connections chat.getMembers := halike.connections hc hchat
    rw [hconnections]
    rfl

/-- Posting to a room. The text is made first, and whether it can be made does not depend on the
    state; `post_patches` is the case that remains after the refusals. -/
theorem send_patches (hkind : r.kind = .send) (s : ServerContext) : ∃ p, r.HasPatch s p := by
  have hc : r.argument ∈ r.rooms := by simp [rooms, hkind]
  have hexecute (s' : ServerContext) : r.kind.command.execute r.msg s'
      = (construct r.msg.getPayload 0 [] .text >>=
          ServerApplicationService.sendGroupMessage r.argument) s' := by
    rw [hkind]
    rfl
  rcases construct_cases r.msg.getPayload 0 [] .text with ⟨m₀, hmade⟩ | hfails
  · -- The message is made, whatever the time: what is left is `send_group_message`.
    have hpost (s' : ServerContext) : ∃ msg, r.kind.command.execute r.msg s'
        = ServerApplicationService.sendGroupMessage r.argument msg s' ∧ msg.untimed = m₀ ∧
          Serializer.serialize msg = Serializer.serialize m₀ := by
      obtain ⟨msg, hmsg, huntimed, hbytes⟩ := hmade s'
      exact ⟨msg, (hexecute s').trans (bind_ok hmsg), huntimed, hbytes⟩
    cases hname : s.sessions.fdToName r.fd with
    | none =>
      refine HasPatch.of_answer (.send r.fd (.static .youNeedToLogin)) fun now s' halike => ?_
      obtain ⟨msg, hmsg, -⟩ := hpost (r.context now s')
      rw [hmsg]
      exact sendGroupMessage_without_login (s := r.context now s') (halike.session.trans hname) msg
    | some u =>
      cases hchat : s.chats r.argument with
      | none =>
        refine HasPatch.of_answer (.send r.fd (.static .chatNotFound)) fun now s' halike => ?_
        obtain ⟨msg, hmsg, -⟩ := hpost (r.context now s')
        rw [hmsg]
        exact sendGroupMessage_missing (s := r.context now s') (halike.session.trans hname)
          (halike.room_none hc hchat) msg
      | some chat =>
        by_cases hmember : chat.isMember u = true
        · exact post_patches hc hname hchat hmember hpost
        · refine HasPatch.of_answer (.send r.fd (.static .youAreNotMember)) fun now s' halike => ?_
          obtain ⟨msg, hmsg, -⟩ := hpost (r.context now s')
          obtain ⟨chat', hchat', huntimed⟩ := halike.room_some hc hchat
          rw [← isMember_of_untimed huntimed] at hmember
          rw [hmsg]
          exact sendGroupMessage_outside (s := r.context now s') (halike.session.trans hname) hchat'
            hmember msg
  · -- a payload that no message can carry: the exception ends the command before it has begun
    refine ⟨.silent _ [], ⟨fun now s' _ => ?_, fun l hl => absurd rfl hl⟩⟩
    obtain ⟨e, he⟩ := hfails (r.context now s')
    dsimp only
    rw [step_eq, finalState_error ((hexecute _).trans (bind_error he))]
    exact ⟨rfl, (List.append_nil _).symm⟩

/-- **What a request does is decided by a few places.** This is the only thing about the handlers
    that `Proof/Server/Commute.lean` uses. -/
theorem request_patches (r : ClientRequest) (s : ServerContext) : ∃ p, r.HasPatch s p := by
  cases hkind : r.kind with
  | login => exact login_patches hkind s
  | room => exact room_patches hkind s
  | join => exact join_patches hkind s
  | send => exact send_patches hkind s
  | getpub => exact getpub_patches hkind s

end ClientRequest

end Messenger
