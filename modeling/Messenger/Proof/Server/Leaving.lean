import Messenger.Proof.Server.Directory

/-!
# Leaving

A user leaves by an `EXIT` or because the connection is gone, and the second is handled as
the first. The name is in three places then: the directory, both maps of the session
manager, and the members of the chats. All three are cleaned (`Gone`), and what they hold
about anybody else stays (`SparesOthers`).

The cleaning of the sessions erases one entry of each map. That this is all there was of
the name is a matter of the run: nobody is on two connections.

Of the two halves of the theorem, `SparesOthers` holds of any services: every erasure is at the key
of the one who leaves. `Gone` does not. A second connection under the same name would keep the
name, and it is the lobby, as an invariant of all runs, which says that there is none. Coming back
is then a login of somebody of whom nothing is known, which is let in, with the keys it brings.
-/

set_option autoImplicit false

namespace Messenger

open Messenger.Lib

/-- The two ways to leave. -/
inductive ServerEvent.Leaves (fd : Fd) : ServerEvent → Prop
  | exit {now : UInt64} {msg : Message} (h : msg.IsCommand .exit) : Leaves fd (.message now fd msg)
  | disconnect {now : UInt64} : Leaves fd (.disconnect now fd)

/-! ## What is done -/

section Run

variable {s : ServerContext} {fd : Fd} {u : Name}

theorem unbind_of_bound {m : SessionManager} (h : m.getUsername fd = .ok u) :
    m.unbind fd = { fdToName := m.fdToName.erase fd, nameToFd := m.nameToFd.erase u } := by
  unfold SessionManager.unbind
  rw [getUsername_ok_iff.mp h]

theorem exitCurrentSession_run (h : s.sessions.getUsername s.fd = .ok u) :
    ServerApplicationService.exitCurrentSession s = .ok () { s with
      users := s.users.removeUser u
      chats := s.chats.removeUserFromAllChats u
      sessions := s.sessions.unbind s.fd } := by
  unfold ServerApplicationService.exitCurrentSession
  rw [get_bind_run, h]
  rfl

/-- The services without `u`, who was on `fd`. -/
def ServiceState.without (s : ServiceState) (u : Name) (fd : Fd) : ServiceState where
  users := s.users.removeUser u
  chats := s.chats.removeUserFromAllChats u
  sessions := s.sessions.unbind fd

theorem step_exit {msg : Message} (hmsg : msg.IsCommand .exit)
    (h : s.sessions.getUsername fd = .ok u) (now : UInt64) :
    (s.step (.message now fd msg)).services = s.services.without u fd := by
  have hrun := exitCurrentSession_run (s := { s with now := now, fd := fd }) h
  rw [step_command hmsg.type, hmsg.dispatch .exit rfl]
  exact congrArg ServerContext.services (finalState_ok hrun)

theorem step_leaves {e : ServerEvent} (he : e.Leaves fd) (h : s.sessions.getUsername fd = .ok u) :
    (s.step e).services = s.services.without u fd := by
  cases he with
  | exit hmsg => exact step_exit hmsg h _
  | @disconnect now =>
    obtain ⟨msg, hmsg, hstep⟩ := step_disconnect_eq s now fd
    rw [hstep]
    exact step_exit hmsg h now

end Run

/-! ## What is left -/

/-- Nothing in the services is about `u`, and `fd` is nobody's. -/
structure Gone (u : Name) (fd : Fd) (s : ServiceState) : Prop where
  unregistered : ∀ user, s.users.findUser u ≠ .ok user
  unreachable : ∀ g, s.sessions.getFd u ≠ .ok g
  offline : ∀ g, s.sessions.getUsername g ≠ .ok u
  free : ∀ v, s.sessions.getUsername fd ≠ .ok v
  no_member : ∀ c chat, s.chats c = some chat → u ∉ chat.getMembers

/-- Between `s` and `s'`, everything that is about anyone but `u`, who was on `fd`, is the same:
    keys, sessions, rooms, members and histories. A room that `u` was alone in stays, without
    members. -/
structure SparesOthers (u : Name) (fd : Fd) (s s' : ServiceState) : Prop where
  users : ∀ v, v ≠ u → s'.users.findUser v = s.users.findUser v
  names : ∀ g, g ≠ fd → s'.sessions.getUsername g = s.sessions.getUsername g
  connections : ∀ v, v ≠ u → s'.sessions.getFd v = s.sessions.getFd v
  rooms : ∀ c, (s'.chats c).isSome = (s.chats c).isSome
  chats : ∀ c chat chat', s.chats c = some chat → s'.chats c = some chat' →
    chat'.type = chat.type ∧ chat'.messages = chat.messages ∧
      ∀ v, v ≠ u → (v ∈ chat'.getMembers ↔ v ∈ chat.getMembers)

theorem findUser_congr {users users' : UserService} {v : Name} (h : users' v = users v) :
    users'.findUser v = users.findUser v := by
  unfold UserService.findUser
  rw [h]

theorem getUsername_congr {m m' : SessionManager} {g : Fd} (h : m'.fdToName g = m.fdToName g) :
    m'.getUsername g = m.getUsername g := by
  unfold SessionManager.getUsername
  rw [h]

theorem getFd_congr {m m' : SessionManager} {v : Name} (h : m'.nameToFd v = m.nameToFd v) :
    m'.getFd v = m.getFd v := by
  unfold SessionManager.getFd
  rw [h]

theorem leftChat_mem (chat : Chat) (u v : Name) :
    v ∈ (if chat.isMember u then (chat.removeMember u).2 else chat).getMembers
      ↔ v ≠ u ∧ v ∈ chat.getMembers := by
  have hmembers := congrArg (fun ms => v ∈ ms) (leftChat_toFinset chat u)
  simpa [Chat.getMembers] using hmembers

theorem leftChat_messages (chat : Chat) (u : Name) :
    (if chat.isMember u then (chat.removeMember u).2 else chat).messages = chat.messages := by
  unfold Chat.removeMember
  split
  · split
    · rfl
    · rfl
  · rfl

section Without

variable {s : ServiceState} {L : Lobby Fd Name} {fd : Fd} {u : Name}

theorem without_sessions (hu : s.sessions.getUsername fd = .ok u) :
    (s.without u fd).sessions
      = { fdToName := s.sessions.fdToName.erase fd, nameToFd := s.sessions.nameToFd.erase u } :=
  unbind_of_bound hu

theorem without_chat {c : Name} {chat' : Chat} (h : (s.without u fd).chats c = some chat') :
    ∃ chat, s.chats c = some chat ∧
      (if chat.isMember u then (chat.removeMember u).2 else chat) = chat' :=
  Option.map_eq_some_iff.mp h

/-- No trace is left. For the sessions this takes the lobby: the cleaning erases one entry of each
    map, and that the name had no other connection is what `sessions_inverse` gives. -/
theorem without_gone (hrep : Represents s L) (hu : s.sessions.getUsername fd = .ok u) :
    Gone u fd (s.without u fd) where
  unregistered user h := by
    apply findUser_ok_iff.mp ⟨user, h⟩
    exact Table.erase_self ..
  unreachable g h := by
    rw [getFd_ok_iff, without_sessions hu] at h
    simp at h
  offline g h := by
    rw [getUsername_ok_iff, without_sessions hu] at h
    by_cases hg : g = fd
    · simp [hg] at h
    · -- `u` was on `fd` only
      simp only [Table.erase_of_ne hg] at h
      have hto := hrep.sessions_inverse.mp hu
      have hto' := hrep.sessions_inverse.mp (getUsername_ok_iff.mpr h)
      exact hg (Except.ok.inj (hto'.symm.trans hto))
  free v h := by
    rw [getUsername_ok_iff, without_sessions hu] at h
    simp at h
  no_member c chat' h := by
    obtain ⟨chat, -, rfl⟩ := without_chat h
    rw [leftChat_mem]
    exact fun hmem => hmem.1 rfl

/-- Nobody else is touched. This holds of any services, since every erasure is at the key of `u` or
    `fd`. -/
theorem without_sparesOthers (hu : s.sessions.getUsername fd = .ok u) :
    SparesOthers u fd s (s.without u fd) where
  users v hv := findUser_congr (Table.erase_of_ne hv _)
  names g hg := getUsername_congr (by rw [without_sessions hu]; exact Table.erase_of_ne hg _)
  connections v hv := getFd_congr (by rw [without_sessions hu]; exact Table.erase_of_ne hv _)
  rooms c := Option.isSome_map
  chats c chat chat' h h' := by
    obtain ⟨chat₀, hchat₀, rfl⟩ := without_chat h'
    obtain rfl := Option.some.inj (hchat₀.symm.trans h)
    refine ⟨leftChat_type .., leftChat_messages .., fun v hv => ?_⟩
    rw [leftChat_mem]
    exact and_iff_right hv

end Without

/-! ## Coming back -/

/-- `u` has logged in on `g` with the keys that `login` brought, is in no room, and has been
    greeted. -/
structure Welcomed (u : Name) (g : Fd) (login : Message) (s s' : ServerContext) : Prop where
  registered : s'.users.findUser u = .ok login.loginKeys
  online : s'.sessions.getUsername g = .ok u
  reachable : s'.sessions.getFd u = .ok g
  no_member : ∀ c chat, s'.chats c = some chat → u ∉ chat.getMembers
  greeted : ∃ m, m.content = .plain .text [] (bytes "Hello, " ++ u ++ bytes "!") ∧
    s'.outbox = s.outbox ++ [(g, .serialized m)]

theorem login_run {s : ServerContext} {u : Name} (dh identity sig : Bytes)
    (hfree : s.sessions.fdToName s.fd = none) (hfresh : s.users u = none) :
    ServerApplicationService.login u dh identity sig s
      = sendText s.fd (bytes "Hello, " ++ u ++ bytes "!") { s with
          users := s.users.insert u
            { publicDHKey := dh, publicIdentityKey := identity, signature := sig }
          sessions := s.sessions.bind s.fd u } := by
  unfold ServerApplicationService.login
  rw [get_bind_run, getUsername_of_none hfree]
  dsimp only
  cases hregister : s.users.registerUser u dh identity sig with
  | error e =>
    unfold UserService.registerUser at hregister
    rw [hfresh] at hregister
    cases hregister
  | ok users =>
    obtain ⟨-, rfl⟩ := registerUser_ok hregister
    rfl

theorem sendText_run {text : Bytes} (htext : compactSize [] text < 2 ^ 32) (fd : Fd)
    (s : ServerContext) :
    ∃ m, m.content = .plain .text [] text ∧
      sendText fd text s = .ok () { s with outbox := s.outbox ++ [(fd, .serialized m)] } := by
  obtain ⟨m, hconstruct, hcontent⟩ := construct_ok 0 .text s
    (show ([] : List Bytes).length < 256 by decide) htext
  exact ⟨m, hcontent, bind_ok hconstruct⟩

theorem text_fits {before name after : Bytes} (hbefore : before.length ≤ 64)
    (hname : name.length ≤ 65535) (hafter : after.length ≤ 64) :
    compactSize [] (before ++ name ++ after) < 2 ^ 32 := by
  simp only [compactSize, List.map_nil, List.sum_nil, List.length_append]
  omega

theorem greeting_fits {u : Name} (hu : u.length ≤ 65535) :
    compactSize [] (bytes "Hello, " ++ u ++ bytes "!") < 2 ^ 32 :=
  text_fits (by decide) hu (by decide)

/-- Whoever logs in under a name of which nothing is left is let in. The directory has no entry, so
    the registration succeeds; no room has the name, so they are in none. -/
theorem step_welcomes {s : ServerContext} {fd g : Fd} {login : Message} (hlogin : login.IsLogin)
    (hname : (login.getMeta 1).length ≤ 65535) (hfree : s.sessions.fdToName g = none)
    (hgone : Gone (login.getMeta 1) fd s.services) (now : UInt64) :
    Welcomed (login.getMeta 1) g login s (s.step (.message now g login)) := by
  have hfresh : s.users (login.getMeta 1) = none := by
    by_contra huser
    obtain ⟨user, huser⟩ := findUser_ok_iff.mpr huser
    exact hgone.unregistered user huser
  have hlogs := login_run (s := { s with now := now, fd := g }) (login.getMeta 2)
    (login.getMeta 3) (login.getMeta 4) hfree hfresh
  obtain ⟨m, hcontent, hgreets⟩ := sendText_run (greeting_fits hname) g { s with
    now := now
    fd := g
    users := s.users.insert (login.getMeta 1) login.loginKeys
    sessions := s.sessions.bind g (login.getMeta 1) }
  have hrun := finalState_ok (hlogs.trans hgreets)
  rw [step_command hlogin.type, hlogin.dispatch .login rfl]
  unfold ServerCommand.execute
  rw [hrun]
  exact {
    registered := by
      unfold UserService.findUser
      simp
    online := getUsername_ok_iff.mpr (Table.insert_self ..)
    reachable := getFd_ok_iff.mpr (Table.insert_self ..)
    no_member := hgone.no_member
    greeted := ⟨m, hcontent, rfl⟩ }

/-- **Leaving removes every trace of the user and nothing else.** In every state a server can reach,
    after the exit of `u` or the end of their connection nothing is about `u`, and everything about
    others is as it was. Whoever logs in as `u` next, on a connection of nobody, is let in and is in
    no room. -/
theorem leaving_removes_every_trace (events : List ServerEvent) (e : ServerEvent) (fd : Fd)
    (u : Name) (he : e.Leaves fd) (hu : (serverAfter events).sessions.getUsername fd = .ok u) :
    let s := serverAfter events
    let s' := s.step e
    Gone u fd s'.services ∧ SparesOthers u fd s.services s'.services ∧
    ∀ (now : UInt64) (g : Fd) (raw : Bytes) (login : Message),
      Serializer.deserialize raw = .ok login → login.IsLogin → login.getMeta 1 = u →
      (∀ v, s'.sessions.getUsername g ≠ .ok v) →
        Welcomed u g login s' (s'.step (.message now g login)) := by
  intro s s'
  obtain ⟨L, -, hrep⟩ := represents_run events
  have hs' : s'.services = s.services.without u fd := step_leaves he hu
  have hgone : Gone u fd s'.services := by
    rw [hs']
    exact without_gone hrep hu
  refine ⟨hgone, ?_, ?_⟩
  · rw [hs']
    exact without_sparesOthers hu
  · intro now g raw login hraw hlogin hname hfree
    subst hname
    -- the name came over the wire, so it is short enough for the greeting
    refine step_welcomes hlogin (deserialize_entry_fits hraw 1) ?_ hgone now
    cases hg : s'.sessions.fdToName g with
    | none => rfl
    | some v => exact absurd (getUsername_ok_iff.mpr hg) (hfree v)

/-- A `LOGIN` as alice, on the wire. -/
def aliceLogin : Bytes :=
  bytes "\x01\x05\x00\x01\x02\x00\x05alice\x00\x01K\x00\x01I\x00\x01S\x00\x00\x00\x00"

/-- The connection of alice ends. Someone else takes the name. -/
theorem alice_leaves_and_returns :
    let s := (serverAfter aliceAndBob).step (.disconnect 3 5)
    Gone (bytes "alice") 5 s.services ∧ s.sessions.getUsername 6 = .ok (bytes "bob") ∧
    ∃ login, Serializer.deserialize aliceLogin = .ok login ∧
      Welcomed (bytes "alice") 9 login s (s.step (.message 4 9 login)) := by
  intro s
  obtain ⟨hgone, hspares, hback⟩ := leaving_removes_every_trace aliceAndBob (.disconnect 3 5) 5
    (bytes "alice") .disconnect rfl
  refine ⟨hgone, (hspares.names 6 (by decide)).trans rfl, _, rfl, ?_⟩
  refine hback 4 9 aliceLogin _ rfl ⟨rfl, rfl⟩ rfl fun v hv => ?_
  have h9 : s.sessions.getUsername 9 = .error .userNotFound := rfl
  rw [h9] at hv
  cases hv

/-! ## Dropping a user by name

`disconnect_username` cleans the directory and the sessions and forgets the chats, so after
it someone can be a member of a room without being online, and the services do not represent
a lobby any more. What they hold apart from the chats still does. -/

/-- The services as if there were no chats. -/
def ServiceState.roomless (s : ServiceState) : ServiceState := { s with chats := .empty }

section Roomless

variable {s s' : ServiceState} {L : Lobby Fd Name} {fd : Fd} {u : Name}

/-- Without the chats, the changes to rooms are none at all. -/
theorem Change.roomless (h : Change fd s s') : Change fd s.roomless s'.roomless := by
  cases h with
  | none => exact .none
  | login hfree hfresh => exact .login hfree hfresh
  | createRoom => exact .none
  | joinRoom => exact .none
  | post => exact .none
  | exit hu => exact .exit hu

theorem disconnectUsername_run {s : ServerContext} (h : s.sessions.getFd u = .ok fd) :
    ServerApplicationService.disconnectUsername u s = .ok () { s with
      users := s.users.removeUser u
      sessions := s.sessions.unbind fd } := by
  unfold ServerApplicationService.disconnectUsername
  rw [get_bind_run, h]
  rfl

theorem disconnectUsername_absent {s : ServerContext} {e : ServiceError}
    (h : s.sessions.getFd u = .error e) :
    ServerApplicationService.disconnectUsername u s = .ok () s := by
  unfold ServerApplicationService.disconnectUsername
  rw [get_bind_run, h]
  rfl

/-- Chats apart, dropping someone by name is an exit from the connection they are on. -/
theorem disconnectUsername_change {s : ServerContext} (hrep : Represents s.services.roomless L)
    (u : Name) :
    ∃ fd, Change fd s.services.roomless
      (finalState (ServerApplicationService.disconnectUsername u) s).services.roomless := by
  cases hfd : s.sessions.getFd u with
  | error e =>
    rw [finalState_ok (disconnectUsername_absent hfd)]
    exact ⟨s.fd, .none⟩
  | ok fd =>
    rw [finalState_ok (disconnectUsername_run hfd)]
    have hu : s.sessions.getUsername fd = .ok u := hrep.sessions_inverse.mpr hfd
    exact ⟨fd, .exit (getUsername_ok_iff.mp hu)⟩

/-- Any call of the application service, seen without the chats. Only `disconnect_username` is not a
    change of the current connection, and it is the one for which the chats had to be left out. -/
theorem operation_changes {s : ServerContext} (hrep : Represents s.services.roomless L)
    (operation : ServerOperation) :
    ∃ fd, Change fd s.services.roomless (finalState operation.run s).services.roomless := by
  -- all but one are changes of the current connection
  have hchanges : ChangesAt operation.run s →
      ∃ fd, Change fd s.services.roomless (finalState operation.run s).services.roomless :=
    fun h => ⟨s.fd, h.state.change.roomless⟩
  cases operation with
  | login username dh identity sig => exact hchanges (login_changes username dh identity sig s)
  | joinRoom chatName => exact hchanges (joinRoom_changes chatName s)
  | createRoom chatName => exact hchanges (createRoom_changes chatName s)
  | sendGroupMessage chatName message =>
    exact hchanges (sendGroupMessage_changes chatName message s)
  | deliverCipherMessage fd msg =>
    exact hchanges ((deliverCipherMessage_onlySends fd msg).changesAt s)
  | disconnectUsername username => exact disconnectUsername_change hrep username
  | exitCurrentSession => exact hchanges (exitCurrentSession_changes s)
  | sendPubkey username => exact hchanges ((sendPubkey_onlySends username).changesAt s)

end Roomless

/-- **Chats apart, the services represent a lobby** whatever calls were made. By induction on the
    calls, from the end. -/
theorem represents_calls (requests : List ServiceRequest) :
    ∃ L, Represents (contextAfter requests).services.roomless L := by
  induction requests using List.reverseRecOn with
  | nil => exact ⟨Lobby.empty, represents_empty⟩
  | append_singleton requests request ih =>
    obtain ⟨L, hrep⟩ := ih
    obtain ⟨fd, hchange⟩ := operation_changes
      (s := { contextAfter requests with now := request.now, fd := request.fd }) hrep
      request.operation
    obtain ⟨L', -, hrep'⟩ := represents_change hrep hchange
    refine ⟨L', ?_⟩
    unfold contextAfter
    rw [List.foldl_append]
    exact hrep'

/-- Taking someone out of all chats changes nothing exactly if they are in none. -/
theorem removeUserFromAllChats_eq_self_iff {chats : ChatService} {u : Name} :
    chats.removeUserFromAllChats u = chats ↔
      ∀ c chat, chats c = some chat → u ∉ chat.getMembers := by
  constructor
  · intro h c chat hchat hu
    have hleft := congrFun h c
    unfold ChatService.removeUserFromAllChats at hleft
    rw [hchat, Option.map_some, Option.some.injEq] at hleft
    rw [← hleft, leftChat_mem] at hu
    exact hu.1 rfl
  · intro h
    funext c
    unfold ChatService.removeUserFromAllChats
    cases hchat : chats c with
    | none => rfl
    | some chat =>
      have hu : u ∉ chat.members.val := h c chat hchat
      simp [Chat.isMember, hu]

/-- **When the two ways of dropping a user agree**: when the user is in no room. The two calls write
    the same users and the same sessions, so they agree exactly if the chats do. -/
theorem disconnectUsername_agrees_iff (requests : List ServiceRequest) (u : Name) (fd : Fd)
    (hu : (contextAfter requests).sessions.getUsername fd = .ok u) (now now' : UInt64) (fd' : Fd) :
    let s := contextAfter requests
    (s.call ⟨now, fd', .disconnectUsername u⟩).services
        = (s.call ⟨now', fd, .exitCurrentSession⟩).services ↔
      ∀ c chat, s.chats c = some chat → u ∉ chat.getMembers := by
  intro s
  obtain ⟨L, hrep⟩ := represents_calls requests
  have hfd : s.sessions.getFd u = .ok fd := hrep.sessions_inverse.mp hu
  have hdisconnect : s.call ⟨now, fd', .disconnectUsername u⟩ = _ :=
    finalState_ok (disconnectUsername_run (s := { s with now := now, fd := fd' }) hfd)
  have hexit : s.call ⟨now', fd, .exitCurrentSession⟩ = _ :=
    finalState_ok (exitCurrentSession_run (s := { s with now := now', fd := fd }) hu)
  rw [hdisconnect, hexit, ← removeUserFromAllChats_eq_self_iff]
  constructor
  · intro h
    exact (congrArg ServiceState.chats h).symm
  · intro h
    unfold ServerContext.services
    dsimp only
    rw [h]

/-- Alice logs in. -/
def aliceAlone : List ServiceRequest := [⟨1, 5, .login (bytes "alice") [0xA1] [0xA2] [0xA3]⟩]

theorem disconnectUsername_agrees_alone :
    ((contextAfter aliceAlone).call ⟨2, 5, .disconnectUsername (bytes "alice")⟩).services
      = ((contextAfter aliceAlone).call ⟨2, 5, .exitCurrentSession⟩).services :=
  (disconnectUsername_agrees_iff aliceAlone (bytes "alice") 5 rfl 2 2 5).mpr fun c chat h => by
    cases h

/-- After `disconnect_username` alice is still in the room she made. -/
theorem disconnectUsername_leaves_member :
    let s := contextAfter (aliceAlone ++ [⟨2, 5, .createRoom (bytes "den")⟩])
    let dropped := s.call ⟨3, 5, .disconnectUsername (bytes "alice")⟩
    let left := s.call ⟨3, 5, .exitCurrentSession⟩
    s.sessions.getUsername 5 = .ok (bytes "alice") ∧
      (dropped.chats (bytes "den")).map Chat.getMembers = some [bytes "alice"] ∧
      (left.chats (bytes "den")).map Chat.getMembers = some [] ∧
      dropped.services ≠ left.services := by
  intro s dropped left
  have hdropped : (dropped.chats (bytes "den")).map Chat.getMembers = some [bytes "alice"] := rfl
  have hleft : (left.chats (bytes "den")).map Chat.getMembers = some [] := rfl
  refine ⟨rfl, hdropped, hleft, fun h => ?_⟩
  have hchats : dropped.chats = left.chats := congrArg ServiceState.chats h
  rw [hchats, hleft] at hdropped
  cases hdropped

end Messenger
