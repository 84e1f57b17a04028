import Messenger.Proof.Server.Changes
import Messenger.Spec.Lobby

/-!
# The services represent a lobby

`SessionManager::bind` alone would break the correspondence of its two maps, and the three
services share no transaction. What holds them together is that every event makes a single
`Change` whose guards are those of a `Lobby` operation. So the services of a running
server always represent a lobby (`represents_step`, `represents_run`), and what a lobby
guarantees by construction holds of them.

The guard of `bind` is worth a look. The session manager does not check that the name is free; the
user service does, in the call before. That this is enough rests on `registered`: a name is in the
directory exactly if it is online.
-/

set_option autoImplicit false

namespace Messenger

open Messenger.Lib

/-- The maps of the services are those of the lobby `L`: the sessions in both directions, a
    registered user for everyone online, the member sets of the chats. All chats are group chats,
    which take new members. -/
structure Represents (s : ServiceState) (L : Lobby Fd Name) : Prop where
  online : ∀ fd, L.online fd = s.sessions.fdToName fd
  connection : ∀ u, L.online.symm u = s.sessions.nameToFd u
  registered : ∀ u, s.users u = none ↔ L.online.symm u = none
  rooms : ∀ c, L.rooms c = (s.chats c).map fun chat => chat.members.val.toFinset
  group : ∀ c chat, s.chats c = some chat → chat.type = .group

theorem represents_empty : Represents (ServerContext.services {}) Lobby.empty where
  online _ := rfl
  connection _ := rfl
  registered u := by constructor <;> intro <;> rfl
  rooms _ := rfl
  group c chat h := by cases h

variable {s : ServiceState} {L : Lobby Fd Name} {fd : Fd} {u c : Name}

/-- A login. Each table has one new entry, so each field is the same for every other key. -/
theorem represents_login {user : User} (h : Represents s L) (hfd : L.online fd = none)
    (hu : L.online.symm u = none) :
    Represents { s with users := s.users.insert u user, sessions := s.sessions.bind fd u }
      (L.login fd u hfd hu) where
  online fd' := by
    by_cases heq : fd' = fd
    · subst heq
      simp [Lobby.login, bindPair_apply, SessionManager.bind]
    · simp only [Lobby.login, bindPair_apply, SessionManager.bind, Table.insert_of_ne heq]
      exact h.online fd'
  connection v := by
    by_cases heq : v = u
    · subst heq
      simp [Lobby.login, bindPair_symm_apply, SessionManager.bind]
    · simp only [Lobby.login, bindPair_symm_apply, SessionManager.bind, Table.insert_of_ne heq]
      exact h.connection v
  registered v := by
    by_cases heq : v = u
    · subst heq
      simp [Lobby.login, bindPair_symm_apply]
    · simp only [Lobby.login, bindPair_symm_apply, Table.insert_of_ne heq]
      exact h.registered v
  rooms c := h.rooms c
  group := h.group

theorem group_insert {chat : Chat} (h : Represents s L) (hgroup : chat.type = .group) :
    ∀ c' chat', s.chats.insert c chat c' = some chat' → chat'.type = .group := by
  intro c' chat' hchat'
  by_cases heq : c' = c
  · subst heq
    rw [Table.insert_self] at hchat'
    cases hchat'
    exact hgroup
  · rw [Table.insert_of_ne heq] at hchat'
    exact h.group c' chat' hchat'

/-- A chat that gets one more member. Creating a room and joining one are both of this form; for a
    new room the members before are those of a room that is not there, the empty set. -/
theorem represents_enter {chat : Chat} (h : Represents s L) (hu : L.online fd = some u)
    (hmembers : chat.members.val.toFinset = insert u ((L.rooms c).getD ∅))
    (hgroup : chat.type = .group) :
    Represents { s with chats := s.chats.insert c chat } (L.enter fd u c hu) where
  online := h.online
  connection := h.connection
  registered := h.registered
  rooms c' := by
    by_cases heq : c' = c
    · subst heq
      simp [Lobby.enter, hmembers]
    · simp only [Lobby.enter, Table.insert_of_ne heq]
      exact h.rooms c'
  group := group_insert h hgroup

/-- A chat whose members stay the same: a post adds to the history only. -/
theorem represents_sameMembers {chat chat' : Chat} (h : Represents s L)
    (hchat : s.chats c = some chat) (hmembers : chat'.members = chat.members)
    (htype : chat'.type = chat.type) : Represents { s with chats := s.chats.insert c chat' } L where
  online := h.online
  connection := h.connection
  registered := h.registered
  rooms c' := by
    by_cases heq : c' = c
    · subst heq
      rw [h.rooms, hchat]
      simp [hmembers]
    · simp only [Table.insert_of_ne heq]
      exact h.rooms c'
  group := group_insert h (htype.trans (h.group c chat hchat))

/-- What `remove_user_from_all_chats` makes of one chat. It asks first whether the user is a member;
    for the set of members that makes no difference. -/
theorem leftChat_toFinset (chat : Chat) (u : Name) :
    (if chat.isMember u then (chat.removeMember u).2 else chat).members.val.toFinset
      = chat.members.val.toFinset.erase u := by
  unfold Chat.isMember Chat.removeMember
  by_cases hu : u ∈ chat.members.val
  · simp only [hu, decide_true, if_true]
    ext v
    simp [chat.members.property.mem_erase_iff]
  · simp only [hu, decide_false, Bool.false_eq_true, if_false]
    rw [Finset.erase_eq_of_notMem]
    simpa using hu

theorem leftChat_type (chat : Chat) (u : Name) :
    (if chat.isMember u then (chat.removeMember u).2 else chat).type = chat.type := by
  unfold Chat.removeMember
  split
  · split
    · rfl
    · rfl
  · rfl

/-- Leaving, the one operation that writes all three services. The sessions are cleaned by the
    descriptor: `unbind` looks the name up and erases both entries, and that it is the name of the
    one who leaves is `hname`. The rooms are cleaned by the name. -/
theorem represents_leave (h : Represents s L) (hu : L.online fd = some u) :
    Represents {
      users := s.users.removeUser u
      chats := s.chats.removeUserFromAllChats u
      sessions := s.sessions.unbind fd } (L.leave fd u hu) where
  online fd' := by
    have hname : s.sessions.fdToName fd = some u := (h.online fd).symm.trans hu
    simp only [Lobby.leave, unbindPair_apply, SessionManager.unbind, hname]
    by_cases heq : fd' = fd
    · subst heq
      simp
    · simp only [Table.erase_of_ne heq]
      exact h.online fd'
  connection v := by
    have hname : s.sessions.fdToName fd = some u := (h.online fd).symm.trans hu
    simp only [Lobby.leave, unbindPair_symm_apply, SessionManager.unbind, hname]
    by_cases heq : v = u
    · subst heq
      simp
    · simp only [Table.erase_of_ne heq]
      exact h.connection v
  registered v := by
    simp only [Lobby.leave, unbindPair_symm_apply, UserService.removeUser]
    by_cases heq : v = u
    · subst heq
      simp
    · simp only [Table.erase_of_ne heq]
      exact h.registered v
  rooms c := by
    simp only [Lobby.leave, ChatService.removeUserFromAllChats, h.rooms, Option.map_map]
    exact Option.map_congr fun chat _ => (leftChat_toFinset chat u).symm
  group c chat hchat := by
    -- leaving removes no chat and makes none, it changes the members of each
    obtain ⟨chat₀, hchat₀, rfl⟩ := Option.map_eq_some_iff.mp hchat
    rw [leftChat_type]
    exact h.group c chat₀ hchat₀

/-- In a group, adding someone is insertion, also for someone who is there already. -/
theorem addMember_toFinset {chat : Chat} (hgroup : chat.type = .group) :
    (chat.addMember u).2.members.val.toFinset = insert u chat.members.val.toFinset := by
  unfold Chat.addMember
  rw [hgroup, if_neg (by decide)]
  by_cases hu : u ∈ chat.members.val
  · simp only [hu, dite_true]
    rw [Finset.insert_eq_of_mem (by simpa using hu)]
  · simp [hu]

theorem addMember_type (chat : Chat) (u : Name) : (chat.addMember u).2.type = chat.type := by
  unfold Chat.addMember
  split
  · rfl
  · split
    · rfl
    · rfl

/-- **One change is one step of the lobby.** Each guard of the change is a condition of the lobby's
    operation, brought over by `Represents`. -/
theorem represents_change {s' : ServiceState} (h : Represents s L)
    (hchange : Change fd s s') : ∃ L', Lobby.Step fd L L' ∧ Represents s' L' := by
  cases hchange with
  | none => exact ⟨L, .idle, h⟩
  | @login u user hfree hfresh =>
    have hfd : L.online fd = none := (h.online fd).trans hfree
    -- that the name is not registered is, in a lobby, that it is not online
    have hu : L.online.symm u = none := (h.registered u).mp hfresh
    exact ⟨_, .login hfd hu, represents_login h hfd hu⟩
  | @createRoom c u hname hfresh =>
    have hu : L.online fd = some u := (h.online fd).trans hname
    refine ⟨_, .enter hu, represents_enter h hu ?_ (addMember_type _ u)⟩
    rw [addMember_toFinset rfl, h.rooms, hfresh]
    rfl
  | @joinRoom c u chat hname hchat _ =>
    have hu : L.online fd = some u := (h.online fd).trans hname
    have hgroup := h.group c chat hchat
    refine ⟨_, .enter hu, represents_enter h hu ?_ ((addMember_type chat u).trans hgroup)⟩
    rw [addMember_toFinset hgroup, h.rooms, hchat]
    rfl
  | @post c u chat message _ hchat _ =>
    exact ⟨L, .idle, represents_sameMembers h hchat rfl rfl⟩
  | @exit u hname =>
    have hu : L.online fd = some u := (h.online fd).trans hname
    exact ⟨_, .leave hu, represents_leave h hu⟩

/-! ## Runs -/

/-- **One event is one step of the lobby.** -/
theorem represents_step {s : ServerContext} (h : Represents s.services L) (e : ServerEvent) :
    ∃ L', Lobby.Step e.fd L L' ∧ Represents (s.step e).services L' :=
  represents_change h (step_change s e)

/-- **The services of a running server represent a lobby** that came about from an empty one. By
    induction on the run, from its end. -/
theorem represents_run (events : List ServerEvent) :
    ∃ L, L.Reachable ∧ Represents (serverAfter events).services L := by
  induction events using List.reverseRecOn with
  | nil => exact ⟨Lobby.empty, .refl, represents_empty⟩
  | append_singleton events e ih =>
    obtain ⟨L, hreach, hrep⟩ := ih
    obtain ⟨L', hstep, hrep'⟩ := represents_step hrep e
    refine ⟨L', hreach.tail ⟨e.fd, hstep⟩, ?_⟩
    unfold serverAfter
    rw [List.foldl_append]
    exact hrep'

/-! ## What the lobby guarantees -/

theorem getFd_ok_iff {m : SessionManager} : m.getFd u = .ok fd ↔ m.nameToFd u = some fd := by
  unfold SessionManager.getFd
  cases m.nameToFd u with
  | none => simp
  | some v => simp

theorem findUser_ok_iff {users : UserService} :
    (∃ user, users.findUser u = .ok user) ↔ users u ≠ none := by
  unfold UserService.findUser
  cases users u with
  | none => simp
  | some user => simp

/-- The two session maps are inverse to each other, because both are the one partial bijection of
    the lobby. -/
theorem Represents.sessions_inverse (h : Represents s L) :
    s.sessions.getUsername fd = .ok u ↔ s.sessions.getFd u = .ok fd := by
  rw [getUsername_ok_iff, getFd_ok_iff, ← h.online, ← h.connection]
  exact L.online.eq_some_iff.symm

theorem Represents.registered_iff (h : Represents s L) :
    (∃ user, s.users.findUser u = .ok user) ↔ ∃ fd, s.sessions.getUsername fd = .ok u := by
  rw [findUser_ok_iff, Ne, h.registered u, ← Ne, Option.ne_none_iff_exists']
  constructor
  · rintro ⟨fd, hfd⟩
    exact ⟨fd, getUsername_ok_iff.mpr (by rw [← h.online, ← L.online.eq_some_iff, hfd])⟩
  · rintro ⟨fd, hfd⟩
    rw [getUsername_ok_iff, ← h.online, ← L.online.eq_some_iff] at hfd
    exact ⟨fd, hfd⟩

/-- Whoever is in a room is online. In the lobby this is a field; the services have nothing that
    would enforce it. -/
theorem Represents.member_online (h : Represents s L) {chat : Chat} (hchat : s.chats c = some chat)
    (hu : u ∈ chat.getMembers) : ∃ fd, s.sessions.getUsername fd = .ok u := by
  have hroom : L.rooms c = some chat.members.val.toFinset := by rw [h.rooms, hchat]; rfl
  obtain ⟨fd, hfd⟩ := L.members_online c _ hroom u (List.mem_toFinset.mpr hu)
  exact ⟨fd, getUsername_ok_iff.mpr (by rw [← h.online, hfd])⟩

/-- **The services agree in every state a server can reach.** The two maps of the session
    manager are inverse to each other, exactly the names bound there are registered users,
    and every member of every chat is one of them. -/
theorem serverAfter_services_agree (events : List ServerEvent) :
    let s := serverAfter events
    (∀ fd u, s.sessions.getUsername fd = .ok u ↔ s.sessions.getFd u = .ok fd) ∧
    (∀ u, (∃ user, s.users.findUser u = .ok user) ↔ ∃ fd, s.sessions.getUsername fd = .ok u) ∧
    (∀ c chat, s.chats c = some chat →
      ∀ u ∈ chat.getMembers, ∃ user, s.users.findUser u = .ok user) := by
  intro s
  obtain ⟨L, -, h⟩ := represents_run events
  refine ⟨?_, ?_, ?_⟩
  · intro fd u
    exact h.sessions_inverse
  · intro u
    exact h.registered_iff
  · intro c chat hchat u hu
    exact h.registered_iff.mpr (h.member_online hchat hu)

end Messenger
