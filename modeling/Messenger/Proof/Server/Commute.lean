import Messenger.Proof.Server.Footprint

/-!
# Independent requests commute

Two requests on different connections that have to do with different users and different rooms
lead to the same in either order. Their footprints are apart (`reads_apart`), and the general
fact about footprints does the rest.

That the footprints are apart is not only a matter of the requests. A group message looks up the
connections of all members of the room, whom the request does not name, and a login writes the
connection of the one who logs in. In a running server every member of a room is registered, and a
login writes only under a name that is not.
-/

set_option autoImplicit false

namespace Messenger

open Messenger.Lib

/-- The users that a request acts for or names. -/
def ServerContext.usernames (s : ServerContext) (r : ClientRequest) : List Name :=
  (s.sessions.fdToName r.fd).toList ++ r.names

/-- The requests have no connection, user or room in common. -/
structure Independent (s : ServerContext) (a b : ClientRequest) : Prop where
  fd : a.fd ≠ b.fd
  users : List.Disjoint (s.usernames a) (s.usernames b)
  rooms : List.Disjoint a.rooms b.rooms

/-- The same users with their keys, the same sessions, the same rooms but for the times in their
    histories, and the same sent, in whatever order. The times differ because each request is
    handled at its own time. -/
structure SameOutcome (s s' : ServerContext) : Prop where
  users : s.users = s'.users
  sessions : s.sessions = s'.sessions
  rooms : ∀ c, (s.chats c).map Chat.untimed = (s'.chats c).map Chat.untimed
  sent : s.sentBytes.Perm s'.sentBytes

section Apart

variable {s : ServerContext} {L : Lobby Fd Name} {a b : ClientRequest}

theorem Independent.symm (h : Independent s a b) : Independent s b a :=
  ⟨h.fd.symm, h.users.symm, h.rooms.symm⟩

theorem Independent.names_ne (h : Independent s a b) {u : Name} (ha : u ∈ a.names) :
    u ∉ b.names := fun hb =>
  h.users (List.mem_append_right _ ha) (List.mem_append_right _ hb)

/-- Members are registered, so no login under a free name concerns them. -/
theorem Represents.member_registered (hrep : Represents s.services L) {c u : Name} {chat : Chat}
    (hchat : s.chats c = some chat) (hu : u ∈ chat.getMembers) : s.users u ≠ none :=
  findUser_ok_iff.mp (hrep.registered_iff.mpr (hrep.member_online hchat hu))

theorem reads_nameOf {g : Fd} (h : b.Reads s.services (.nameOf g)) : g = b.fd := by
  cases h with
  | session => rfl

theorem writes_nameOf {g : Fd} (h : b.Writes s.services (.nameOf g)) : g = b.fd := by
  cases h with
  | session => rfl

theorem reads_apart (hrep : Represents s.services L) (h : Independent s a b) {l : Place}
    (hwrites : a.Writes s.services l) : ¬b.Reads s.services l := by
  intro hreads
  cases hwrites with
  | user hu _ =>
    cases hreads with
    | user hu' => exact h.names_ne hu hu'
  | session => exact h.fd (reads_nameOf hreads)
  | connection hu hfree =>
    -- here the requests alone are not enough: `b` does not name the members of its room
    cases hreads with
    | member _ hchat hmember => exact hrep.member_registered hchat hmember hfree
  | room hc =>
    cases hreads with
    | room hc' => exact h.rooms hc hc'

theorem writes_apart (h : Independent s a b) {l : Place} (hwrites : a.Writes s.services l) :
    ¬b.Writes s.services l := by
  intro hwrites'
  cases hwrites with
  | user hu _ =>
    cases hwrites' with
    | user hu' _ => exact h.names_ne hu hu'
  | session => exact h.fd (writes_nameOf hwrites')
  | connection hu _ =>
    cases hwrites' with
    | connection hu' _ => exact h.names_ne hu hu'
  | room hc =>
    cases hwrites' with
    | room hc' => exact h.rooms hc hc'

end Apart

theorem sameOutcome_of_look {s s' : ServerContext} (h : s.look = s'.look)
    (hsent : s.sentBytes.Perm s'.sentBytes) : SameOutcome s s' where
  users := funext fun u => congrFun h (.user u)
  sessions := by
    have hname : s.sessions.fdToName = s'.sessions.fdToName :=
      funext fun fd => congrFun h (.nameOf fd)
    have hfd : s.sessions.nameToFd = s'.sessions.nameToFd :=
      funext fun u => congrFun h (.fdOf u)
    exact congrArg₂ SessionManager.mk hname hfd
  rooms c := congrFun h (.room c)
  sent := hsent

/-- **Independent requests commute**, in every state a server can reach and at all times. -/
theorem independent_requests_commute (events : List ServerEvent) (a b : ClientRequest)
    (h : Independent (serverAfter events) a b) (t₁ t₂ t₃ t₄ : UInt64) :
    let s := serverAfter events
    SameOutcome ((s.step (a.event t₁)).step (b.event t₂))
      ((s.step (b.event t₃)).step (a.event t₄)) := by
  intro s
  obtain ⟨L, -, hrep⟩ := represents_run events
  -- the patches are those of `s`; that they are also those of the state after the other request
  -- is what the footprints are for
  obtain ⟨p, hp⟩ := a.request_patches s
  obtain ⟨q, hq⟩ := b.request_patches s
  have hpR : ∀ l, b.Reads s.services l → p.writes l = none := by
    intro l hreads
    by_contra hl
    exact reads_apart hrep h (hp.writes l hl) hreads
  have hqR : ∀ l, a.Reads s.services l → q.writes l = none := by
    intro l hreads
    by_contra hl
    exact reads_apart hrep h.symm (hq.writes l hl) hreads
  have hpq : ∀ l, p.writes l = none ∨ q.writes l = none := by
    intro l
    by_contra hboth
    rw [not_or] at hboth
    exact writes_apart h (hp.writes l hboth.1) (hq.writes l hboth.2)
  obtain ⟨hlook, hsent⟩ := hp.patches.commute hq.patches hpR hqR hpq t₁ t₂ t₃ t₄
  exact sameOutcome_of_look hlook hsent

/-- A group message in one room while someone else logs in. -/
theorem send_and_login_commute :
    let command (code : CommandType) (args : List Bytes) : Message :=
      { header := { type := .command }, metadata := [code.toByte] :: args, payload := bytes "hi" }
    let post : ClientRequest := ⟨6, .send, command .send [bytes "den"], rfl, rfl⟩
    let login : ClientRequest :=
      ⟨7, .login, command .login [bytes "carol", [1], [2], [3]], rfl, rfl⟩
    let s := serverAfter twoInARoom
    Independent s post login ∧
      SameOutcome ((s.step (post.event 5)).step (login.event 6))
        ((s.step (login.event 5)).step (post.event 6)) := by
  intro command post login s
  have hcarol : bytes "carol" ∉ s.usernames post := by decide
  have h : Independent s post login :=
    ⟨by decide, List.disjoint_singleton.mpr hcarol, List.disjoint_nil_right _⟩
  exact ⟨h, independent_requests_commute twoInARoom post login h 5 6 5 6⟩

end Messenger
