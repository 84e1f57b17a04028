import Mathlib.Data.Finset.Basic
import Mathlib.Logic.Relation
import Messenger.Lib.Bijection

/-!
# The lobby: what the server keeps

Who is online on which connection, and who is in which room. At most one name belongs to
a connection and at most one connection to a name (`PEquiv`), and only people who are
online are in rooms: both hold of every `Lobby` because they are part of it.

Connections and names are any types. The lobby knows nothing of keys, histories or
replies; `Proof/Server/Lobby.lean` shows that the server's three services represent one.
-/

set_option autoImplicit false

namespace Messenger

open Messenger.Lib

/-- Who is online where, and who is in which room. The first is a partial bijection and the second a
    finite set for each room, so there is no lobby in which one name has two connections or a room
    has someone twice. -/
structure Lobby (F N : Type) where
  online : F ≃. N
  rooms : Table N (Finset N)
  members_online : ∀ c ms, rooms c = some ms → ∀ u ∈ ms, ∃ fd, online fd = some u

namespace Lobby

variable {F N : Type}

def empty : Lobby F N where
  online := ⊥
  rooms := .empty
  members_online c ms h := by cases h

theorem connection_unique (L : Lobby F N) {fd : F} {u v : N} (hu : L.online.symm u = some fd)
    (hv : L.online.symm v = some fd) : u = v :=
  L.online.symm.inj hu hv

variable [DecidableEq F] [DecidableEq N]

/-- Someone comes online, under a name that is not in use. -/
def login (L : Lobby F N) (fd : F) (u : N) (hfd : L.online fd = none)
    (hu : L.online.symm u = none) : Lobby F N where
  online := bindPair L.online fd u hfd hu
  rooms := L.rooms
  members_online c ms h v hv := by
    obtain ⟨fd', hfd'⟩ := L.members_online c ms h v hv
    have hne : fd' ≠ fd := by
      intro heq
      rw [heq, hfd] at hfd'
      cases hfd'
    refine ⟨fd', ?_⟩
    rw [bindPair_apply, Table.insert_of_ne hne]
    exact hfd'

/-- Someone enters a room, which is opened if need be. Creating a room and joining one are the same
    here; what tells them apart is a reply. -/
def enter (L : Lobby F N) (fd : F) (u c : N) (hu : L.online fd = some u) : Lobby F N where
  online := L.online
  rooms := L.rooms.insert c (insert u ((L.rooms c).getD ∅))
  members_online c' ms h v hv := by
    by_cases hc : c' = c
    · subst hc
      rw [Table.insert_self] at h
      cases h
      -- the newcomer is online by `hu`, all others were there before
      rcases Finset.mem_insert.mp hv with rfl | hv
      · exact ⟨fd, hu⟩
      · cases hroom : L.rooms c' with
        | none =>
          rw [hroom] at hv
          simp at hv
        | some ms =>
          rw [hroom] at hv
          exact L.members_online c' ms hroom v hv
    · rw [Table.insert_of_ne hc] at h
      exact L.members_online c' ms h v hv

/-- Someone goes offline, and out of all rooms. The rooms have to be left in the same step: a lobby
    with an offline member does not exist. -/
def leave (L : Lobby F N) (fd : F) (u : N) (hu : L.online fd = some u) : Lobby F N where
  online := unbindPair L.online fd u hu
  rooms c := (L.rooms c).map fun ms => ms.erase u
  members_online c ms h v hv := by
    obtain ⟨ms', hroom, rfl⟩ := Option.map_eq_some_iff.mp h
    obtain ⟨hne, hv⟩ := Finset.mem_erase.mp hv
    obtain ⟨fd', hfd'⟩ := L.members_online c ms' hroom v hv
    -- whoever is still in a room is someone else, on a connection of their own
    have hne' : fd' ≠ fd := by
      intro heq
      rw [heq, hu] at hfd'
      exact hne (Option.some.inj hfd').symm
    refine ⟨fd', ?_⟩
    rw [unbindPair_apply, Table.erase_of_ne hne']
    exact hfd'

/-- What the connection `fd` can do to the lobby. -/
inductive Step (fd : F) (L : Lobby F N) : Lobby F N → Prop
  | idle : Step fd L L
  | login {u : N} (hfd : L.online fd = none) (hu : L.online.symm u = none) :
      Step fd L (L.login fd u hfd hu)
  | enter {u c : N} (hu : L.online fd = some u) : Step fd L (L.enter fd u c hu)
  | leave {u : N} (hu : L.online fd = some u) : Step fd L (L.leave fd u hu)

/-- The lobbies that come about from an empty one. -/
def Reachable (L : Lobby F N) : Prop :=
  Relation.ReflTransGen (fun L L' => ∃ fd, Step fd L L') empty L

end Lobby

end Messenger
