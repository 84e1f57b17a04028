import Messenger.Proof.Interest

/-!
# A connection of the server as a writer

What `Proof/Interest.lean` says is about one `Writer`. Here it is brought to the server, which has
many connections, sends to any of them at any time and is told of each when it can be written: each
connection goes through the states of its own writer, whatever happens to the others
(`server_run_writer`). So a server strands the bytes of a connection exactly when a writer would
(`server_bytes_watched`).

The counterpart for the sessions of a peer is `Proof/Peer/Writing.lean`.
-/

set_option autoImplicit false

namespace Messenger

open Messenger.Lib

variable {s : WatchingServer} {fd other : Fd} {conn : ClientConnection} {w : Writer}

/-- What there is for `fd`, if it has a connection and is registered. -/
def WatchingServer.writer (s : WatchingServer) (fd : Fd) : Option Writer :=
  (s.server.connections fd).bind fun conn => (s.watched fd).map conn.writer

/-- The server with another connection and another interest at `fd`. -/
def WatchingServer.wrote (s : WatchingServer) (fd : Fd) (conn : ClientConnection)
    (interest : Bool) : WatchingServer where
  server := s.server.setConnection fd conn
  watched := s.watched.insert fd interest

theorem server_writer_wrote (s : WatchingServer) (fd : Fd) (conn : ClientConnection)
    (interest : Bool) : (s.wrote fd conn interest).writer fd = some (conn.writer interest) := by
  simp [WatchingServer.writer, WatchingServer.wrote, Server.setConnection]

theorem server_writer_eq_some (h : s.writer fd = some w) : ∃ conn interest,
    s.server.connections fd = some conn ∧ s.watched fd = some interest ∧
      w = conn.writer interest := by
  obtain ⟨conn, hconn, hmap⟩ := Option.bind_eq_some_iff.mp h
  obtain ⟨interest, hwatched, hw⟩ := Option.map_eq_some_iff.mp hmap
  exact ⟨conn, interest, hconn, hwatched, hw.symm⟩

/-- Each call is an assignment at its descriptor. For a write that leaves bytes the interest is not
    touched, so the assignment of `watched` has to be read as one that changes nothing. -/
theorem server_step_run {interest : Bool} (hconn : s.server.connections fd = some conn)
    (hwatched : s.watched fd = some interest) (e : WriterEvent) :
    ∃ conn' interest', s.step (fd, e) = s.wrote fd conn' interest' ∧
      conn'.writer interest' = (conn.writer interest).step e := by
  cases e with
  | send data =>
    refine ⟨conn.queueSend data, true, ?_, rfl⟩
    unfold WatchingServer.step WatchingServer.send sendToBuffer
    dsimp only
    rw [hconn]
    unfold WatchingServer.setWriteInterest
    dsimp only
    rw [hwatched]
    rfl
  | writable a =>
    let f := conn.flush a.written
    have hrun : s.step (fd, .writable a) =
        if f.1 then
          WatchingServer.setWriteInterest { s with server := s.server.setConnection fd f.2.1 }
            fd false
        else { s with server := s.server.setConnection fd f.2.1 } := by
      unfold WatchingServer.step WatchingServer.onClientWritable
      dsimp only
      rw [hconn]
    have hstep : (conn.writer interest).step (.writable a)
        = if f.1 then f.2.1.writer false else f.2.1.writer interest := rfl
    refine ⟨f.2.1, if f.1 then false else interest, ?_, ?_⟩
    · rw [hrun]
      cases f.1 with
      | true =>
        rw [if_pos rfl]
        unfold WatchingServer.setWriteInterest
        dsimp only
        rw [hwatched]
        rfl
      | false =>
        unfold WatchingServer.wrote
        rw [if_neg (by simp), if_neg (by simp), Table.insert_eq_self hwatched]
    · rw [hstep]
      cases f.1 <;> rfl

/-- A call for another descriptor. It may have no connection, or not be registered. -/
theorem server_step_of_ne (h : other ≠ fd) (s : WatchingServer) (e : WriterEvent) :
    (s.step (fd, e)).writer other = s.writer other := by
  have hinterest (t : WatchingServer) (interest : Bool) :
      (t.setWriteInterest fd interest).writer other = t.writer other := by
    unfold WatchingServer.setWriteInterest
    split
    · rfl
    · simp [WatchingServer.writer, Table.insert_of_ne h]
  cases e with
  | send data =>
    have hbuffers : sendToBuffer s.server.connections fd data other
        = s.server.connections other := by
      unfold sendToBuffer
      cases s.server.connections fd with
      | none => rfl
      | some conn => exact Table.insert_of_ne h _ _
    show (WatchingServer.send s fd data).writer other = _
    unfold WatchingServer.send
    rw [hinterest]
    unfold WatchingServer.writer
    dsimp only
    rw [hbuffers]
  | writable a =>
    show (WatchingServer.onClientWritable s fd a.written).writer other = _
    unfold WatchingServer.onClientWritable
    split
    · rfl
    · rename_i conn hconn
      have hset : WatchingServer.writer
          { s with server := s.server.setConnection fd (conn.flush a.written).2.1 } other
            = s.writer other := by
        simp [WatchingServer.writer, Server.setConnection, Table.insert_of_ne h]
      dsimp only
      split
      · rw [hinterest, hset]
      · exact hset

/-- **Sends and writes for any descriptors, in any order**, take each connection through the states
    of its own writer: those that the calls for its own descriptor lead to. The induction is on the
    calls; one for another descriptor leaves the writer alone and is filtered out. -/
theorem server_run_writer (h : s.writer fd = some w) (events : List (Fd × WriterEvent)) :
    (s.run events).writer fd
      = some (w.run ((events.filter fun a => a.1 = fd).map Prod.snd)) := by
  induction events generalizing s w with
  | nil => exact h
  | cons a events ih =>
    obtain ⟨g, e⟩ := a
    by_cases hfd : g = fd
    · subst hfd
      obtain ⟨conn, interest, hconn, hwatched, rfl⟩ := server_writer_eq_some h
      obtain ⟨conn', interest', hrun, hstep⟩ := server_step_run hconn hwatched e
      have hnext : (s.step (g, e)).writer g = some ((conn.writer interest).step e) := by
        rw [hrun, server_writer_wrote, hstep]
      rw [List.filter_cons_of_pos (by simp)]
      exact ih hnext
    · have hnext : (s.step (g, e)).writer fd = some w :=
        (server_step_of_ne (fun heq => hfd heq.symm) s e).trans h
      rw [List.filter_cons_of_neg (by simpa using hfd)]
      exact ih hnext

/-- The transport's functions do what the event loop's model says they do: only the interest is
    added. -/
theorem onClientWritable_server (s : WatchingServer) (fd : Fd) (r : SendResult) :
    (s.onClientWritable fd r).server = finalState (Server.onClientWritable fd r) s.server := by
  have hinterest (t : WatchingServer) (interest : Bool) :
      (t.setWriteInterest fd interest).server = t.server := by
    unfold WatchingServer.setWriteInterest
    split <;> rfl
  unfold WatchingServer.onClientWritable Server.onClientWritable
  rw [finalState_get_bind]
  cases s.server.connections fd with
  | none => rfl
  | some conn =>
    dsimp only
    split
    · rw [hinterest]
      rfl
    · rfl

/-- **A server does not strand the bytes of a connection** whose writes get no answer that stalls:
    whatever it sends to others in between, what waits to be written is watched for. -/
theorem server_bytes_watched {interest : Bool} (h : s.writer fd = some (conn.writer interest))
    (hempty : conn.sendBuffer = []) {events : List (Fd × WriterEvent)}
    (hanswers : ∀ a, (fd, .writable a) ∈ events → ¬a.Stalls (.stream conn.transport)) :
    ∃ w, (s.run events).writer fd = some w ∧ w.Watched := by
  refine ⟨_, server_run_writer h events, ?_⟩
  have hstart : (conn.writer interest).Watched := fun hne => absurd hempty hne
  refine run_watched hstart fun a ha => hanswers a ?_
  obtain ⟨⟨g, e⟩, hmem, rfl⟩ := List.mem_map.mp ha
  obtain ⟨hevent, hfd⟩ := List.mem_filter.mp hmem
  obtain rfl : g = fd := by simpa using hfd
  exact hevent

end Messenger
