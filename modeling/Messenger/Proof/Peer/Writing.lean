import Messenger.Model.Interest
import Messenger.Proof.Peer.Events

/-!
# A session of a node as a writer

For one descriptor, sending and flushing do what `Writer` says, and they leave the other
descriptors alone. So a node that sends and flushes in any order goes through the states of the
writer (`actions_writer`), and what `Proof/Interest.lean` says of a writer holds of each session.
-/

set_option autoImplicit false

namespace Messenger

open Messenger.Lib PeerNode

variable {s : PeerNode} {fd other : Fd} {session : Session} {w : Writer}

/-- What there is for `fd`, if it has a session and is watched. The interest is kept in the loop and
    not in the session, so the writer is put together from two tables. -/
def PeerNode.writer (s : PeerNode) (fd : Fd) : Option Writer :=
  (s.byFd fd).bind fun session =>
    (s.watched fd).map fun interest => ⟨session.transport, session.out, interest⟩

/-- The calls for one descriptor, as far as they are about its output. -/
def PeerNode.act (fd : Fd) : WriterEvent → PeerM Unit
  | .send data => sendToPeer fd data
  | .writable a => onPeerWritable fd a

/-- The node with another session and another interest at `fd`. -/
def PeerNode.wrote (s : PeerNode) (fd : Fd) (session : Session) (interest : Bool) : PeerNode :=
  { s with byFd := s.byFd.insert fd session, watched := s.watched.insert fd interest }

theorem writer_wrote_self (s : PeerNode) (fd : Fd) (session : Session) (interest : Bool) :
    (s.wrote fd session interest).writer fd
      = some ⟨session.transport, session.out, interest⟩ := by
  simp [PeerNode.writer, PeerNode.wrote]

theorem writer_wrote_of_ne (h : other ≠ fd) (s : PeerNode) (session : Session) (interest : Bool) :
    (s.wrote fd session interest).writer other = s.writer other := by
  simp [PeerNode.writer, PeerNode.wrote, Table.insert_of_ne h]

theorem writer_eq_some (h : s.writer fd = some w) : ∃ session, s.byFd fd = some session ∧
    s.watched fd = some w.writeInterest ∧
      w = ⟨session.transport, session.out, w.writeInterest⟩ := by
  obtain ⟨session, hsession, hmap⟩ := Option.bind_eq_some_iff.mp h
  obtain ⟨interest, hwatched, rfl⟩ := Option.map_eq_some_iff.mp hmap
  exact ⟨session, hsession, hwatched, rfl⟩

/-- Setting the interest of a descriptor that is watched, with its session set before. -/
theorem setWriteInterest_run {before : Bool} (h : s.watched fd = some before) (session : Session)
    (interest : Bool) :
    setWriteInterest fd interest (s.setSession fd session)
      = .ok () (s.wrote fd session interest) := by
  unfold setWriteInterest
  rw [get_bind_run, show (s.setSession fd session).watched fd = some before from h]
  rfl

/-- Each call is an assignment at `fd`, and what is assigned is the next state of the writer. For a
    flush that does not end, the interest stays as it is, which is an assignment too, of what is
    there. -/
theorem act_run {interest : Bool} (h : s.byFd fd = some session)
    (hwatched : s.watched fd = some interest) (e : WriterEvent) :
    ∃ session' interest', PeerNode.act fd e s = .ok () (s.wrote fd session' interest') ∧
      (⟨session'.transport, session'.out, interest'⟩ : Writer)
        = Writer.step ⟨session.transport, session.out, interest⟩ e := by
  cases e with
  | send data =>
    refine ⟨{ session with out := FramerMessage.formMessage data session.out }, true, ?_, rfl⟩
    unfold PeerNode.act sendToPeer
    dsimp only
    rw [get_bind_run, h]
    exact setWriteInterest_run hwatched _ true
  | writable a =>
    let f := session.transport.flushBuffer session.out a
    let flushed : Session := { session with out := f.buffer }
    have hrun : PeerNode.act fd (.writable a) s
        = (if f.done then disableWrite fd else pure ()) (s.setSession fd flushed) := by
      unfold PeerNode.act onPeerWritable
      dsimp only
      rw [bind_ok (sessionAt_some h)]
      rfl
    have hstep : Writer.step ⟨session.transport, session.out, interest⟩ (.writable a)
        = if f.done then ⟨session.transport, f.buffer, false⟩
          else ⟨session.transport, f.buffer, interest⟩ := rfl
    refine ⟨flushed, if f.done then false else interest, ?_, ?_⟩
    · rw [hrun]
      cases f.done with
      | true => exact setWriteInterest_run hwatched flushed false
      | false =>
        have hsame : s.setSession fd flushed = s.wrote fd flushed interest := by
          unfold PeerNode.wrote
          rw [Table.insert_eq_self hwatched]
          rfl
        rw [hsame]
        rfl
    · rw [hstep]
      cases f.done <;> rfl

/-- **Sending and flushing in any order** takes a session through the states of its writer, and does
    nothing to the others. By induction on the calls, with `act_run` for each. -/
theorem actions_writer (h : s.writer fd = some w) (events : List WriterEvent) :
    ∃ s', events.forM (PeerNode.act fd) s = .ok () s' ∧ s'.writer fd = some (w.run events) ∧
      ∀ other ≠ fd, s'.writer other = s.writer other := by
  induction events generalizing s w with
  | nil => exact ⟨s, rfl, h, fun _ _ => rfl⟩
  | cons e events ih =>
    obtain ⟨session, hsession, hwatched, hw⟩ := writer_eq_some h
    obtain ⟨session', interest', hact, hstep⟩ := act_run hsession hwatched e
    have hnext : (s.wrote fd session' interest').writer fd = some (w.step e) := by
      rw [writer_wrote_self, hstep, ← hw]
    obtain ⟨s', hrest, hwriter, hothers⟩ := ih hnext
    refine ⟨s', (bind_ok hact).trans hrest, hwriter, fun other hne => ?_⟩
    rw [hothers other hne, writer_wrote_of_ne hne]

end Messenger
