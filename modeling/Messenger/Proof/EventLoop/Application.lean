import Messenger.Proof.EventLoop.Deeds
import Messenger.Proof.Server.Lobby
import Messenger.Proof.Server.Recipients

/-!
# The event loop and the messaging server

The messaging server knows its clients by descriptor alone. The connections behind them are the
transport's, and `send_to_buffer` drops what is for a descriptor it has no connection for. It
never comes to that: whoever is logged in has a connection, after every event of every run
(`run_attended`), so whatever a handler sends is put in a buffer.
-/

set_option autoImplicit false

namespace Messenger

open Messenger.Lib Relation

variable {s s' : Server}

/-! ## Connections -/

theorem afterCallback_connections (s : Server) (context : ServerContext) (g : Fd) :
    ((s.afterCallback context).connections g).isSome = (s.connections g).isSome := by
  have h := congrArg Option.isSome (sendAllToBuffers_recvBuffer s.connections context.outbox g)
  rwa [Option.isSome_map, Option.isSome_map] at h

theorem without_connections {g fd : Fd} (hg : g ≠ fd) (s : Server) :
    (s.without fd).connections g = s.connections g :=
  Table.erase_of_ne hg ..

/-- Nobody is logged in but who was, or the client whose message it is. -/
theorem bound_of_change {fd g : Fd} {t t' : ServiceState} (h : Change fd t t')
    (hg : t'.sessions.fdToName g ≠ none) : g = fd ∨ t.sessions.fdToName g ≠ none := by
  cases h with
  | none => exact .inr hg
  | login hfree hfresh =>
    by_cases hgfd : g = fd
    · exact .inl hgfd
    · refine .inr fun hnone => hg ?_
      exact (Table.insert_of_ne hgfd ..).trans hnone
  | createRoom hu => exact .inr hg
  | joinRoom hu => exact .inr hg
  | post hu => exact .inr hg
  | exit hu =>
    -- leaving unbinds only the own descriptor, by the name that it had
    by_cases hgfd : g = fd
    · exact .inl hgfd
    · refine .inr fun hnone => hg ?_
      simp only [SessionManager.unbind]
      split
      · exact hnone
      · exact (Table.erase_of_ne hgfd ..).trans hnone

/-- The transport has a connection for everybody who is logged in, and for everything that the last
    callback has sent. The lobby is part of it because recipients are found by name: that a name
    leads to a descriptor that is logged in takes the two session tables to be inverse to each
    other. -/
structure Server.Attended (s : Server) : Prop where
  lobby : ∃ L, Represents s.context.services L
  connected : ∀ g, s.context.sessions.fdToName g ≠ none → (s.connections g).isSome
  buffered : ∀ g packet, (g, packet) ∈ s.context.outbox → (s.connections g).isSome

theorem started_attended (socket : Fd) : (Server.started socket {}).Attended where
  lobby := ⟨_, represents_empty⟩
  connected _ h := absurd rfl h
  buffered _ _ h := by cases h

theorem Represents.bound_of_name {t : ServiceState} {L : Lobby Fd Name} (h : Represents t L)
    {u : Name} {g : Fd} (hu : t.sessions.nameToFd u = some g) : t.sessions.fdToName g ≠ none := by
  have honline : L.online g = some u := L.online.eq_some_iff.mp ((h.connection u).trans hu)
  rw [← h.online, honline]
  exact Option.some_ne_none u

/-- One deed. The two hard cases are those in which the messaging server runs.

    For a message, who is logged in afterwards was logged in before or is the client whose message
    it is (`bound_of_change`), and that client has a connection. Whatever is sent goes back to the
    client or to somebody found by name (`message_recipients`), who is logged in.

    For the end of a connection the descriptor itself loses its connection, so it must not be logged
    in any more: the callback runs before the connection goes, and logs it out. It sends nothing. -/
theorem Server.Attended.deed (h : s.Attended) (hdeed : s.Deed s') : s'.Attended := by
  obtain ⟨L, hL⟩ := h.lobby
  cases hdeed with
  | aside hcontext hhanded hconnections =>
    refine ⟨hcontext ▸ h.lobby, ?_, ?_⟩
    · intro g hg
      rw [hcontext] at hg
      exact hconnections g (h.connected g hg)
    · intro g packet hsent
      rw [hcontext] at hsent
      exact hconnections g (h.buffered g packet hsent)
  | ignored fd hraw => exact ⟨h.lobby, h.connected, h.buffered⟩
  | @undecodable raw x now fd hraw =>
    refine ⟨h.lobby, ?_, ?_⟩
    · intro g hg
      rw [afterCallback_connections]
      exact h.connected g hg
    · intro g packet hsent
      -- a message that cannot be decoded has not come to any handler, so nothing is sent
      cases hsent
  | @message raw m now fd hfd hraw =>
    have hchange := step_change s.fresh (.message now fd m)
    obtain ⟨L', -, hL'⟩ := represents_change hL hchange
    refine ⟨⟨L', hL'⟩, ?_, ?_⟩
    · intro g hg
      rw [afterCallback_connections]
      rcases bound_of_change hchange hg with rfl | hbound
      · exact hfd
      · exact h.connected g hbound
    · intro g packet hsent
      rw [afterCallback_connections]
      -- the outbox starts empty, so what is in it is what this message has sent
      obtain ⟨sent, houtbox, hrecipients⟩ := message_recipients s.fresh now fd m
      have hmem : (g, packet) ∈ sent := by
        have hmem : (g, packet) ∈ (s.fresh.step (.message now fd m)).outbox := hsent
        rw [houtbox] at hmem
        exact hmem
      rcases hrecipients g packet hmem with hgfd | ⟨u, hu⟩
      · exact hgfd ▸ hfd
      · exact h.connected g (hL.bound_of_name hu)
  | hangUp now fd =>
    have hchange := step_change s.fresh (.disconnect now fd)
    obtain ⟨L', -, hL'⟩ := represents_change hL hchange
    refine ⟨⟨L', hL'⟩, ?_, ?_⟩
    · intro g hg
      -- the callback has logged the client out, so `g` is somebody else
      have hgfd : g ≠ fd := by
        intro heq
        subst heq
        exact hg (disconnect_unbinds s.fresh now g)
      rw [without_connections hgfd, afterCallback_connections]
      exact h.connected g ((bound_of_change hchange hg).resolve_left hgfd)
    · intro g packet hsent
      have hmem : (g, packet) ∈ (s.fresh.step (.disconnect now fd)).outbox := hsent
      rw [disconnect_silent] at hmem
      cases hmem

theorem run_attended (socket : Fd) (events : List EpollEvent) :
    ((Server.started socket {}).run events).Attended := by
  have hdeeds := run_deeds (Server.started socket {}) events
  generalize (Server.started socket {}).run events = s at hdeeds
  induction hdeeds with
  | refl => exact started_attended socket
  | tail _ hdeed ih => exact ih.deed hdeed

/-- **Everybody can be reached**: after any run of the event loop, whoever is registered is logged
    in on a connection that the transport has, so is every member of every room, and there is a
    connection for each packet that the last callback has sent. -/
theorem everybody_reachable (socket : Fd) (events : List EpollEvent) :
    (∀ u user, ((Server.started socket {}).run events).context.users u = some user →
      ∃ g conn, ((Server.started socket {}).run events).context.sessions.getFd u = .ok g ∧
        ((Server.started socket {}).run events).connections g = some conn) ∧
    (∀ c chat u, ((Server.started socket {}).run events).context.chats c = some chat →
      u ∈ chat.getMembers →
      ∃ g conn, ((Server.started socket {}).run events).context.sessions.getFd u = .ok g ∧
        ((Server.started socket {}).run events).connections g = some conn) ∧
    (∀ g packet, (g, packet) ∈ ((Server.started socket {}).run events).context.outbox →
      ∃ conn, ((Server.started socket {}).run events).connections g = some conn) := by
  have hattended := run_attended socket events
  generalize (Server.started socket {}).run events = s at hattended
  obtain ⟨L, hL⟩ := hattended.lobby
  -- in the lobby, whoever is online is so on a connection, which the transport has
  have hreach (u : Name) (g : Fd) (hu : L.online.symm u = some g) :
      ∃ g conn, s.context.sessions.getFd u = .ok g ∧ s.connections g = some conn := by
    have hname : s.context.sessions.nameToFd u = some g := (hL.connection u).symm.trans hu
    obtain ⟨conn, hconn⟩ :=
      Option.isSome_iff_exists.mp (hattended.connected g (hL.bound_of_name hname))
    exact ⟨g, conn, getFd_ok_iff.mpr hname, hconn⟩
  refine ⟨?_, ?_, ?_⟩
  · intro u user huser
    cases hu : L.online.symm u with
    | none =>
      have hnone : s.context.users u = none := (hL.registered u).mpr hu
      rw [hnone] at huser
      cases huser
    | some g => exact hreach u g hu
  · intro c chat u hchat hmem
    have hroom : L.rooms c = some chat.members.val.toFinset := by
      rw [hL.rooms, show s.context.services.chats c = some chat from hchat]
      rfl
    obtain ⟨g, hg⟩ := L.members_online c _ hroom u (List.mem_toFinset.mpr hmem)
    exact hreach u g (L.online.eq_some_iff.mpr hg)
  · intro g packet hsent
    exact Option.isSome_iff_exists.mp (hattended.buffered g packet hsent)

end Messenger
