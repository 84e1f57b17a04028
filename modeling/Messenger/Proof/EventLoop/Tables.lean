import Messenger.Proof.EventLoop.Handlers

/-!
# The tables of the server stay in step

A client of the server has an entry in each of four tables, and every event is meant to leave
them with the same clients. The functions that change them do, when they return. They do not
when `SSL_accept` fails: the first attempt throws between two of the updates, a later one
throws with the client still in all four, and nothing up to the thread's own function catches
it.

`CompletesIff x s P` says of a call that it returns exactly when `P` holds, and that it then
keeps the tables in step. Each function has one lemma of this form; put together they give the
condition on an event (`handleEvent_completesIff`) and on a run (`tables_in_step_iff`).

The equivalence makes two demands on each lemma. That a call keeps the tables in step is routine,
since the functions change all four or only what is inside an entry. That it returns only if the
condition holds needs the reasons for which each call can fail, and there are two: a handshake, and
a message that cannot be decoded. All the others, null pointers among them, are excluded by the
tables being in step before, which is why the two parts are proved together.

The hard case of an event is the third part of `handle_event`, where a message is read. Whether
there is one depends on the receive buffer together with what has just come in, so the condition
speaks of `Server.bufferRead` and not of the buffer before the event.
-/

set_option autoImplicit false

namespace Messenger

open Messenger.Lib

variable {s s' : Server} {fd : Fd}

/-! ## In step -/

/-- `fd` has an entry in all four tables or in none. (The loop has another handler, for the
    socket it accepts connections on.) -/
structure Server.InStepAt (s : Server) (fd : Fd) : Prop where
  clients : (s.clients fd).isSome = (s.connections fd).isSome
  wrappers : (s.tlsWrapper fd).isSome = (s.connections fd).isSome
  handlers : s.fdToHandler fd = some .serverHandler ↔ (s.connections fd).isSome
  -- No entry holds a null pointer.
  nonnull : s.tlsWrapper fd ≠ some none

/-- Every descriptor has all of its entries or none. -/
def Server.InStep (s : Server) : Prop := ∀ fd, s.InStepAt fd

/-- What was in step still is. It is said of each descriptor by itself, because an event that fails
    at one of them leaves the others as they were. -/
def StaysInStep (s s' : Server) : Prop := ∀ fd, s.InStepAt fd → s'.InStepAt fd

/-- A server that has been started has no clients. The one handler that the loop has is for the
    listening socket, and that is another handler. -/
theorem started_inStep (socket : Fd) (context : ServerContext) :
    (Server.started socket context).InStep := by
  intro fd
  refine ⟨rfl, rfl, ?_, fun h => by cases h⟩
  by_cases hfd : fd = socket
  · subst hfd
    simp [Server.started, Table.empty]
  · simp [Server.started, Table.insert_of_ne hfd, Table.empty]

/-- A client in step that the loop has a handler for has everything. This is what the handlers of
    the source take for granted when they dereference what they look up. -/
theorem Server.InStepAt.client (h : s.InStepAt fd) (hfd : s.fdToHandler fd = some .serverHandler) :
    s.clients fd = some () ∧ (∃ conn, s.connections fd = some conn) ∧
      ∃ w, s.tlsWrapper fd = some (some w) := by
  have hconn := h.handlers.mp hfd
  refine ⟨?_, Option.isSome_iff_exists.mp hconn, ?_⟩
  · obtain ⟨u, hu⟩ := Option.isSome_iff_exists.mp (h.clients.trans hconn)
    exact hu
  · obtain ⟨w, hw⟩ := Option.isSome_iff_exists.mp (h.wrappers.trans hconn)
    cases w with
    | none => exact absurd hw h.nonnull
    | some w => exact ⟨w, hw⟩

/-- Whether `fd` is in step depends on its four entries only, and of the connection only on whether
    there is one. -/
theorem Server.InStepAt.of_eq (h : s.InStepAt fd) (hclients : s'.clients fd = s.clients fd)
    (hwrappers : s'.tlsWrapper fd = s.tlsWrapper fd)
    (hhandlers : s'.fdToHandler fd = s.fdToHandler fd)
    (hconnections : (s'.connections fd).isSome = (s.connections fd).isSome) : s'.InStepAt fd where
  clients := by rw [hclients, hconnections, h.clients]
  wrappers := by rw [hwrappers, hconnections, h.wrappers]
  handlers := by rw [hhandlers, hconnections, h.handlers]
  nonnull := by
    rw [hwrappers]
    exact h.nonnull

theorem StaysInStep.refl (s : Server) : StaysInStep s s := fun _ h => h

theorem StaysInStep.trans {s'' : Server} (h : StaysInStep s s') (h' : StaysInStep s' s'') :
    StaysInStep s s'' := fun fd hfd => h' fd (h fd hfd)

theorem StaysInStep.of_outline (h : s'.outline = s.outline) : StaysInStep s s' := by
  intro fd hfd
  have hbuffer : s'.outline.recvBuffer fd = s.outline.recvBuffer fd := by rw [h]
  refine hfd.of_eq (congrArg (Outline.clients · fd) h) (congrArg (Outline.tlsWrapper · fd) h)
    (congrArg (Outline.fdToHandler · fd) h) ?_
  simpa [Server.outline] using congrArg Option.isSome hbuffer

theorem StaysInStep.setConnection {conn : ClientConnection} (h : s.connections fd = some conn)
    (conn' : ClientConnection) : StaysInStep s (s.setConnection fd conn') := by
  intro g hg
  refine hg.of_eq rfl rfl rfl ?_
  by_cases hgfd : g = fd
  · subst hgfd
    simp [Server.setConnection, h]
  · simp [Server.setConnection, Table.insert_of_ne hgfd]

theorem StaysInStep.without (s : Server) (fd : Fd) : StaysInStep s (s.without fd) := by
  intro g hg
  by_cases hgfd : g = fd
  · subst hgfd
    constructor <;> simp [Server.without]
  · refine hg.of_eq ?_ ?_ ?_ ?_ <;> simp [Server.without, Table.erase_of_ne hgfd]

theorem StaysInStep.withClient (s : Server) (fd : Fd) (conn : ClientConnection)
    (w : ServerTLSWrapper) : StaysInStep s (s.withClient fd conn w) := by
  intro g hg
  by_cases hgfd : g = fd
  · subst hgfd
    constructor <;> simp [Server.withClient]
  · refine hg.of_eq ?_ ?_ ?_ ?_ <;> simp [Server.withClient, Table.insert_of_ne hgfd]

/-- A wrapper in the place of a wrapper. Were there none before, the other three entries would be
    missing. -/
theorem StaysInStep.setWrapper {w : ServerTLSWrapper} (h : s.tlsWrapper fd = some (some w))
    (w' : ServerTLSWrapper) :
    StaysInStep s { s with tlsWrapper := s.tlsWrapper.insert fd (some w') } := by
  intro g hg
  by_cases hgfd : g = fd
  · subst hgfd
    refine ⟨hg.clients, ?_, hg.handlers, by simp⟩
    rw [← hg.wrappers, h]
    simp
  · exact hg.of_eq rfl (Table.insert_of_ne hgfd ..) rfl rfl

/-! ## Calls that return -/

section Completes

variable {α β : Type} {x : TransportM α} {f : α → TransportM β} {P Q : Prop}

/-- `x` returns exactly when `P`, and then what was in step is in step. Of a call that does not
    return nothing is said about the tables; the exception is not caught anywhere, so no event comes
    after it. -/
structure CompletesIff (x : TransportM α) (s : Server) (P : Prop) : Prop where
  returns : P → ∃ a s', x s = .ok a s' ∧ StaysInStep s s'
  fails : ¬P → ∃ e s', x s = .error e s'

theorem CompletesIff.of_ok {a : α} (h : x s = .ok a s') (hstep : StaysInStep s s') (hP : P) :
    CompletesIff x s P :=
  ⟨fun _ => ⟨a, s', h, hstep⟩, fun hnot => absurd hP hnot⟩

theorem CompletesIff.of_error {e : Failure} (h : x s = .error e s') (hP : ¬P) :
    CompletesIff x s P :=
  ⟨fun hp => absurd hp hP, fun _ => ⟨e, s', h⟩⟩

theorem CompletesIff.iff_ok (h : CompletesIff x s P) : (∃ a s', x s = .ok a s') ↔ P := by
  constructor
  · rintro ⟨a, s', hx⟩
    by_contra hP
    obtain ⟨e, s'', he⟩ := h.fails hP
    rw [hx] at he
    cases he
  · intro hP
    obtain ⟨a, s', hx, -⟩ := h.returns hP
    exact ⟨a, s', hx⟩

theorem CompletesIff.congr (h : CompletesIff x s P) (hPQ : P ↔ Q) : CompletesIff x s Q :=
  ⟨fun hQ => h.returns (hPQ.mpr hQ), fun hQ => h.fails fun hP => hQ (hPQ.mp hP)⟩

theorem CompletesIff.from {y : TransportM α} (h : CompletesIff y s' P) (hstep : StaysInStep s s')
    (hxy : x s = y s') : CompletesIff x s P where
  returns hP := by
    obtain ⟨a, s'', hy, hlater⟩ := h.returns hP
    exact ⟨a, s'', hxy.trans hy, hstep.trans hlater⟩
  fails hP := by
    obtain ⟨e, s'', hy⟩ := h.fails hP
    exact ⟨e, s'', hxy.trans hy⟩

/-- What comes last always returns, so whether the whole returns is decided by the first part. -/
theorem CompletesIff.bind (h : CompletesIff x s P) (hf : ∀ a s, CompletesIff (f a) s True) :
    CompletesIff (x >>= f) s P where
  returns hP := by
    obtain ⟨a, s', hx, hstep⟩ := h.returns hP
    obtain ⟨b, s'', hb, hlater⟩ := (hf a s').returns trivial
    exact ⟨b, s'', (bind_ok hx).trans hb, hstep.trans hlater⟩
  fails hP := by
    obtain ⟨e, s', hx⟩ := h.fails hP
    exact ⟨e, s', bind_error hx⟩

end Completes

theorem pure_completesIff {α : Type} (a : α) (s : Server) :
    CompletesIff (pure a : TransportM α) s True :=
  .of_ok rfl (.refl s) trivial

theorem drop_completesIff (fd : Fd) (now : UInt64) (s : Server) :
    CompletesIff (ServerHandler.drop fd now) s True := by
  obtain ⟨s', hdrop, houtline⟩ := drop_ok fd now s
  exact .of_ok hdrop ((StaysInStep.of_outline houtline).trans (.without s' fd)) trivial

theorem write_completesIff (e : EpollEvent) (s : Server) :
    CompletesIff (ServerHandler.write e) s True := by
  obtain ⟨s', hwrite, houtline⟩ := write_ok e s
  exact .of_ok hwrite (.of_outline houtline) trivial

/-- Accepting a connection returns unless the first attempt at the handshake fails. -/
theorem onClientConnected_completesIff (fd : Fd) (conn : ClientConnection) (r : HandshakeResult)
    (s : Server) : CompletesIff (Server.onClientConnected fd conn r) s (r ≠ .failed) := by
  cases r with
  | failed => exact .of_error (onClientConnected_failed fd conn s) fun hne => hne rfl
  | done => exact .of_ok (onClientConnected_ok rfl fd conn s) (.withClient s fd _ _) (by decide)
  | wouldBlock =>
    exact .of_ok (onClientConnected_ok rfl fd conn s) (.withClient s fd _ _) (by decide)

/-- A later attempt at the handshake, for a client that has its wrapper. -/
theorem tlsHandshake_completesIff {w : ServerTLSWrapper} (h : s.tlsWrapper fd = some (some w))
    (r : HandshakeResult) : CompletesIff (Server.tlsHandshake fd r) s (r ≠ .failed) := by
  cases r with
  | failed => exact .of_error (tlsHandshake_failed h) fun hne => hne rfl
  | done => exact .of_ok (tlsHandshake_ok h rfl) (.setWrapper h _) (by decide)
  | wouldBlock => exact .of_ok (tlsHandshake_ok h rfl) (.setWrapper h _) (by decide)

/-- Handing a message on returns exactly if it is ignored or can be decoded. The length is needed
    because the decoder refuses a well-formed frame only where its size does not fit 32 bits. -/
theorem onClientMessage_completesIff (fd : Fd) {msg : Bytes} (hmsg : msg.length < 2 ^ 32)
    (now : UInt64) (s : Server) :
    CompletesIff (Server.onClientMessage fd msg now) s (Ignored msg ∨ WellFormed msg) := by
  have hnoted : StaysInStep s (s.noted fd msg) := fun _ h => h.of_eq rfl rfl rfl rfl
  by_cases hignored : Ignored msg
  · exact .of_ok (onClientMessage_ignored hignored fd now s) hnoted (.inl hignored)
  · cases hdecode : Serializer.deserialize msg with
    | ok m =>
      obtain ⟨s', hs', houtline⟩ := onClientMessage_ok hignored hdecode fd now s
      exact .of_ok hs' (hnoted.trans (.of_outline houtline))
        (.inr ((deserialize_ok_iff hmsg).mp ⟨m, hdecode⟩))
    | error x =>
      obtain ⟨s', hs', -⟩ := onClientMessage_error hignored hdecode fd now s
      refine .of_error hs' ?_
      rintro (h | h)
      · exact hignored h
      · obtain ⟨m, hm⟩ := (deserialize_ok_iff hmsg).mpr h
        rw [hdecode] at hm
        cases hm

/-! ## One event -/

/-- The connection that `SSL_accept` is called for. At the listening socket it is the one accepted,
    at a client it is the client's own, as long as its handshake is not done. -/
def Server.handshakeAt (s : Server) (e : EpollEvent) : Option Fd :=
  match s.fdToHandler e.fd with
  | none => none
  | some .acceptHandler => if e.readable then e.accepted else none
  | some .serverHandler =>
    if e.hangUp ∨ s.tlsWrapper e.fd = some (some ⟨true⟩) then none
    else if e.readable ∨ e.writable then some e.fd else none

/-- The receive buffer in which a message is looked for: that of the event's connection, with what
    `try_receive` has added to it. -/
def Server.bufferRead (s : Server) (e : EpollEvent) : Option Bytes :=
  match s.fdToHandler e.fd, s.connections e.fd with
  | some .serverHandler, some conn =>
    if e.hangUp = false ∧ s.tlsWrapper e.fd = some (some ⟨true⟩) ∧ e.readable = true ∧
        (conn.tryReceive e.net).1 = true then
      some (conn.received e.net).recvBuffer
    else none
  | _, _ => none

/-- There is no frame in the buffer, or the first one holds a message that the callback can
    decode. -/
def CanBeRead (buffer : Bytes) : Prop :=
  ¬WrapsAround buffer ∧
    ∀ msg rest, extractCompleteMessage buffer = some (msg, rest) → Ignored msg ∨ WellFormed msg

/-- No handshake fails, and no message is malformed. Both are up to the other side of the
    connection, so any client can end the server. -/
structure Server.Harmless (s : Server) (e : EpollEvent) : Prop where
  handshake : ∀ fd, s.handshakeAt e = some fd → e.handshake ≠ .failed
  message : ∀ buffer, s.bufferRead e = some buffer → CanBeRead buffer

section Event

variable {e : EpollEvent} {conn : ClientConnection}

/-- The readable part of an event. The hard case is a buffer with a message in it: whether the call
    returns is then a question about the message, which `onClientMessage_completesIff` answers, and
    the condition on the whole buffer has to be brought down to it. -/
theorem receive_completesIff (hclient : s.clients e.fd = some ())
    (hconn : s.connections e.fd = some conn) :
    CompletesIff (ServerHandler.receive e) s
      ((conn.tryReceive e.net).1 = true → CanBeRead (conn.received e.net).recvBuffer) := by
  have hreturn : ∀ (u : Unit) (s : Server), CompletesIff (pure true : TransportM Bool) s True :=
    fun _ s => pure_completesIff true s
  -- a connection that has ended is dropped, and then nothing is looked for in its buffer
  cases hopen : (conn.tryReceive e.net).1 with
  | false =>
    refine (((drop_completesIff e.fd e.now _).bind hreturn).from (.setConnection hconn _)
      (receive_closed hclient hconn hopen)).congr ?_
    exact iff_of_true trivial fun h => absurd h Bool.false_ne_true
  | true =>
    -- a header whose sum wraps is found complete and read past the end
    by_cases hwraps : WrapsAround (conn.received e.net).recvBuffer
    · exact .of_error
        (receive_error hclient hconn hopen (nextMessage_of_wrapsAround hwraps))
        fun h => (h rfl).1 hwraps
    · have hnext := nextMessage_eq hwraps
      cases hframe : extractCompleteMessage (conn.received e.net).recvBuffer with
      | none =>
        rw [hframe] at hnext
        refine .of_ok (receive_none hclient hconn hopen hnext) (.setConnection hconn _)
          fun _ => ⟨hwraps, fun msg rest h => ?_⟩
        rw [hframe] at h
        cases h
      | some r =>
        obtain ⟨msg, rest⟩ := r
        rw [hframe] at hnext
        have hlen := extractCompleteMessage_length_lt hframe
        refine (((onClientMessage_completesIff e.fd hlen e.now _).bind hreturn).from
          (.setConnection hconn _) (receive_some hclient hconn hopen hnext)).congr ?_
        refine ⟨fun h _ => ⟨hwraps, fun msg' rest' h' => ?_⟩, fun h => (h rfl).2 msg rest hframe⟩
        rw [hframe] at h'
        cases h'
        exact h

/-! What the condition comes to, in the three parts of `handle_event`. -/

/-- A hang-up asks for nothing: neither a handshake nor a message is looked at. -/
theorem harmless_hangUp (hfd : s.fdToHandler e.fd = some .serverHandler) (hup : e.hangUp = true) :
    s.Harmless e where
  handshake fd h := by
    unfold Server.handshakeAt at h
    simp [hfd, hup] at h
  message buffer h := by
    unfold Server.bufferRead at h
    cases hconn : s.connections e.fd <;> simp [hfd, hconn, hup] at h

/-- Before the handshake is done, only the handshake matters. -/
theorem harmless_handshake (hfd : s.fdToHandler e.fd = some .serverHandler)
    (hconn : s.connections e.fd = some conn) (hup : e.hangUp = false)
    (hw : s.tlsWrapper e.fd = some (some ⟨false⟩)) :
    s.Harmless e ↔ (e.readable ∨ e.writable → e.handshake ≠ .failed) := by
  have hat : s.handshakeAt e = if e.readable ∨ e.writable then some e.fd else none := by
    unfold Server.handshakeAt
    simp [hfd, hup, hw]
  have hread : s.bufferRead e = none := by
    unfold Server.bufferRead
    simp [hfd, hconn, hw]
  constructor
  · intro h hready
    exact h.handshake e.fd (by rw [hat, if_pos hready])
  · intro h
    refine ⟨fun fd hfd => ?_, fun buffer hbuffer => ?_⟩
    · rw [hat] at hfd
      split at hfd
      · rename_i hready
        exact h hready
      · cases hfd
    · rw [hread] at hbuffer
      cases hbuffer

theorem harmless_done (hfd : s.fdToHandler e.fd = some .serverHandler)
    (hconn : s.connections e.fd = some conn) (hup : e.hangUp = false)
    (hw : s.tlsWrapper e.fd = some (some ⟨true⟩)) :
    s.Harmless e ↔ (e.readable = true → (conn.tryReceive e.net).1 = true →
      CanBeRead (conn.received e.net).recvBuffer) := by
  have hat : s.handshakeAt e = none := by
    unfold Server.handshakeAt
    simp [hfd, hw]
  have hread : s.bufferRead e = if e.readable = true ∧ (conn.tryReceive e.net).1 = true then
      some (conn.received e.net).recvBuffer else none := by
    unfold Server.bufferRead
    simp [hfd, hconn, hup, hw]
  constructor
  · intro h hreadable hopen
    exact h.message _ (by rw [hread, if_pos ⟨hreadable, hopen⟩])
  · intro h
    refine ⟨fun fd hfd => ?_, fun buffer hbuffer => ?_⟩
    · rw [hat] at hfd
      cases hfd
    · rw [hread] at hbuffer
      split at hbuffer
      · rename_i hreads
        cases hbuffer
        exact h hreads.1 hreads.2
      · cases hbuffer

/-- **One event at a client in step.** The three parts of `handle_event` are gone through in its own
    order, and in each the condition is the one of the lemma above it. -/
theorem serverHandler_completesIff (h : s.InStepAt e.fd)
    (hfd : s.fdToHandler e.fd = some .serverHandler) :
    CompletesIff (ServerHandler.handleEvent e) s (s.Harmless e) := by
  obtain ⟨hclient, ⟨conn, hconn⟩, ⟨done⟩, hw⟩ := h.client hfd
  cases hup : e.hangUp with
  | true =>
    refine ((drop_completesIff e.fd e.now s).from (.refl s) (handleEvent_hangUp hup)).congr ?_
    exact iff_of_true trivial (harmless_hangUp hfd hup)
  | false =>
    cases done with
    | false =>
      have hevent := handleEvent_handshake hup hw rfl
      refine CompletesIff.congr ?_ (harmless_handshake hfd hconn hup hw).symm
      by_cases hready : e.readable ∨ e.writable
      · rw [if_pos hready] at hevent
        refine ((tlsHandshake_completesIff hw e.handshake).from (.refl s) hevent).congr ?_
        exact ⟨fun hr _ => hr, fun hr => hr hready⟩
      · rw [if_neg hready] at hevent
        exact .of_ok hevent (.refl s) fun hr => absurd hr hready
    | true =>
      refine CompletesIff.congr ?_ (harmless_done hfd hconn hup hw).symm
      -- whether the event returns is decided by its reading part; writing always returns
      refine CompletesIff.from (CompletesIff.bind ?_ fun goesOn s => ?_) (.refl s)
        (handleEvent_done hup hw rfl)
      · cases e.readable with
        | true =>
          exact (receive_completesIff hclient hconn).congr ⟨fun h _ => h, fun h => h rfl⟩
        | false => exact .of_ok rfl (.refl s) fun h => absurd h Bool.false_ne_true
      · by_cases hwrites : goesOn ∧ e.writable
        · rw [if_pos hwrites]
          exact write_completesIff e s
        · rw [if_neg hwrites]
          exact pure_completesIff () s

/-- A later attempt that fails leaves the client in all four tables, with a handshake that will not
    be tried again. -/
theorem failed_handshake_kept (h : s.InStepAt e.fd)
    (hfd : s.fdToHandler e.fd = some .serverHandler) (hup : e.hangUp = false)
    (hbusy : s.tlsWrapper e.fd ≠ some (some ⟨true⟩)) (hready : e.readable ∨ e.writable)
    (hfailed : e.handshake = .failed) :
    EventLoop.handleEvent e s = .error (runtimeError "TLS SSL accept error") s := by
  obtain ⟨-, -, ⟨done⟩, hw⟩ := h.client hfd
  have hdone : done = false := by
    cases done with
    | true => exact absurd hw hbusy
    | false => rfl
  unfold EventLoop.handleEvent
  rw [get_bind_run, hfd]
  dsimp only
  rw [handleEvent_handshake hup hw hdone, if_pos hready, hfailed, tlsHandshake_failed hw]

/-- An event at the listening socket. Its condition is that of the handshake with the client it
    accepts; if there is none, it is harmless. -/
theorem acceptHandler_completesIff (hfd : s.fdToHandler e.fd = some .acceptHandler) :
    CompletesIff (AcceptHandler.handleEvent e) s (s.Harmless e) := by
  have hat : s.handshakeAt e = if e.readable then e.accepted else none := by
    unfold Server.handshakeAt
    rw [hfd]
  have hread : s.bufferRead e = none := by
    unfold Server.bufferRead
    simp [hfd]
  have hquiet : s.handshakeAt e = none → s.Harmless e := by
    intro hnone
    refine ⟨fun fd h => ?_, fun buffer h => ?_⟩
    · rw [hnone] at h
      cases h
    · rw [hread] at h
      cases h
  unfold AcceptHandler.handleEvent
  cases hreadable : e.readable with
  | false =>
    rw [hreadable] at hat
    exact .of_ok rfl (.refl s) (hquiet hat)
  | true =>
    rw [hreadable] at hat
    cases haccepted : e.accepted with
    | none =>
      rw [haccepted] at hat
      exact .of_ok rfl (.refl s) (hquiet hat)
    | some fd =>
      rw [haccepted] at hat
      refine (onClientConnected_completesIff fd _ e.handshake s).congr ?_
      refine ⟨fun hr => ⟨fun _ _ => hr, fun buffer h => ?_⟩, fun h => h.handshake fd hat⟩
      rw [hread] at h
      cases h

/-- **One event.** An event for a descriptor that the loop does not know is skipped. -/
theorem handleEvent_completesIff (h : s.InStep) (e : EpollEvent) :
    CompletesIff (EventLoop.handleEvent e) s (s.Harmless e) := by
  unfold EventLoop.handleEvent
  refine CompletesIff.from ?_ (.refl s) (get_bind_run _ s)
  cases hfd : s.fdToHandler e.fd with
  | none =>
    refine .of_ok rfl (.refl s) ⟨fun fd hat => ?_, fun buffer hread => ?_⟩
    · unfold Server.handshakeAt at hat
      simp [hfd] at hat
    · unfold Server.bufferRead at hread
      simp [hfd] at hread
  | some handler =>
    cases handler with
    | acceptHandler => exact acceptHandler_completesIff hfd
    | serverHandler => exact serverHandler_completesIff (h e.fd) hfd

end Event

/-! ## Runs -/

/-- The event is handled as it should be. (A call that evaluates `tls_handshake_done` where
    there is no wrapper does not return.) -/
structure Server.Handles (s : Server) (e : EpollEvent) : Prop where
  returns : ∃ s', EventLoop.handleEvent e s = .ok () s'
  inStep : (s.step e).InStep
  -- A client whose handshake has failed is gone.
  dropped : ∀ fd, s.handshakeAt e = some fd → e.handshake = .failed →
    (s.step e).connections fd = none

/-- An event is handled as it should be exactly if it is harmless. That a client whose handshake has
    failed is gone is then true for want of one: where a handshake fails, the event does not
    return. -/
theorem handles_iff (h : s.InStep) (e : EpollEvent) : s.Handles e ↔ s.Harmless e := by
  have hevent := handleEvent_completesIff h e
  constructor
  · intro hhandles
    obtain ⟨s', hs'⟩ := hhandles.returns
    exact hevent.iff_ok.mp ⟨(), s', hs'⟩
  · intro hharmless
    obtain ⟨u, s', hs', hstep⟩ := hevent.returns hharmless
    have hinStep : (s.step e).InStep := by
      unfold Server.step
      rw [finalState_ok hs']
      exact fun fd => hstep fd (h fd)
    exact ⟨⟨s', hs'⟩, hinStep, fun fd hfd hfailed => absurd hfailed (hharmless.handshake fd hfd)⟩

/-- Every event is harmless when it comes. -/
def Server.HarmlessRun : Server → List EpollEvent → Prop
  | _, [] => True
  | s, e :: events => s.Harmless e ∧ (s.step e).HarmlessRun events

/-- **A run.** The induction is on the events, with the start generalised. An event that is handled
    leaves the tables in step, which is what the next one needs. -/
theorem Server.InStep.run_iff (h : s.InStep) (events : List EpollEvent) :
    (∀ earlier e, earlier ++ [e] <+: events → (s.run earlier).Handles e) ↔
      s.HarmlessRun events := by
  induction events generalizing s with
  | nil =>
    refine iff_of_true (fun earlier e hprefix => ?_) trivial
    have hnil := List.prefix_nil.mp hprefix
    exact absurd hnil (by simp)
  | cons event events ih =>
    constructor
    · intro hall
      -- the first event is the one with nothing before it
      have hfirst : s.Handles event := hall [] event (by simp)
      refine ⟨(handles_iff h event).mp hfirst, (ih hfirst.inStep).mp ?_⟩
      intro earlier e hprefix
      exact hall (event :: earlier) e (List.cons_prefix_cons.mpr ⟨rfl, hprefix⟩)
    · rintro ⟨hharmless, hlater⟩ earlier e hprefix
      have hfirst := (handles_iff h event).mpr hharmless
      cases earlier with
      | nil =>
        obtain ⟨rfl, -⟩ := List.cons_prefix_cons.mp hprefix
        exact hfirst
      | cons event' earlier =>
        obtain ⟨rfl, hrest⟩ := List.cons_prefix_cons.mp hprefix
        exact (ih hfirst.inStep).mpr hlater earlier e hrest

/-- **When the tables stay in step**: every event of a run returns and leaves the four tables
    with the same clients if and only if no handshake fails and no message that is taken out
    of a buffer is malformed. -/
theorem tables_in_step_iff (socket : Fd) (context : ServerContext) (events : List EpollEvent) :
    (∀ earlier e, earlier ++ [e] <+: events →
      ((Server.started socket context).run earlier).Handles e) ↔
      (Server.started socket context).HarmlessRun events :=
  (started_inStep socket context).run_iff events

/-! ## One client -/

/-- A text message in its frame, in the frame of the transport. -/
def textPacket : Chunk :=
  ⟨frame (frame (bytes "\x00\x00\x00\x00\x00\x02hi")), by decide, by decide⟩

/-- A connection from its first event to its last. -/
theorem one_client_in_step :
    let events : List EpollEvent := [
      { fd := 3, readable := true, accepted := some 5, handshake := .wouldBlock },
      { fd := 5, readable := true, handshake := .done },
      { fd := 5, readable := true, writable := true, net := [.data textPacket] },
      { fd := 5, hangUp := true }]
    ∀ earlier e, earlier ++ [e] <+: events → ((Server.started 3 {}).run earlier).Handles e := by
  intro events
  refine (tables_in_step_iff 3 {} events).mpr ⟨⟨?_, ?_⟩, ⟨?_, ?_⟩, ⟨?_, ?_⟩, ⟨?_, ?_⟩, trivial⟩
  · intro _ _
    decide
  · intro _ h
    cases h
  · intro _ _
    decide
  · intro _ h
    cases h
  · intro _ _
    decide
  · intro _ h
    cases h
    refine ⟨fun hwraps => absurd hwraps.2.1 (by decide), fun msg rest hmsg => .inr ?_⟩
    cases hmsg
    exact (deserialize_ok_iff (by decide)).mp ⟨_, rfl⟩
  · intro _ h
    cases h
  · intro _ h
    cases h

/-- `SSL_accept` fails at once. The client is in three tables, the exception goes up through
    the loop, and the next event would use a null pointer. -/
theorem failed_accept_out_of_step :
    let s := Server.started 3 {}
    let e : EpollEvent :=
      { fd := 3, readable := true, accepted := some 5, handshake := .failed }
    (∃ s', EventLoop.handleEvent e s = .error (runtimeError "TLS SSL accept error") s') ∧
      ((s.step e).connections 5).isSome ∧ ((s.step e).clients 5).isSome ∧
      (s.step e).fdToHandler 5 = some .serverHandler ∧ (s.step e).tlsWrapper 5 = none ∧
      (∃ s', EventLoop.handleEvent { fd := 5, readable := true } (s.step e)
        = .error nullPointer s') ∧
      ¬s.Handles e := by
  intro s e
  refine ⟨⟨_, rfl⟩, rfl, rfl, rfl, rfl, ⟨_, rfl⟩, fun h => ?_⟩
  obtain ⟨s', hs'⟩ := h.returns
  cases hs'

end Messenger
