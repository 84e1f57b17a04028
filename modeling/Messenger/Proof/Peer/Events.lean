import Messenger.Proof.Peer.Registry

/-!
# Events of a peer node

The handler of a node and its registry should have the same peers. Registering and disconnecting
keep it so (`run_sameFds`). An event may not, in two ways: after a hang-up the handler has
forgotten the peer, whether or not the registry could let it go; and when nothing can be received
any more, the handler uses an entry that it has just erased. Everything else that an event sets
off only changes what is in the buffers of sessions that are there.

So the proof has two halves. The first is a small calculus: `OnlyQueues` and `LeavesSessions` are
kept by sequencing, and every line of `on_peer_writable`, of the callback and of the loop over the
messages has one of them. The loop is the only place that needs more: it locks a weak pointer at
each turn, after a callback that may have sent to anybody, and the session must still be there.

The second half goes through the mask of the event in the order of the source, hang-up first. Each
branch gives one side of the condition in `handles_safely_iff`.
-/

set_option autoImplicit false

namespace Messenger

open Messenger.Lib PeerNode

variable {s s' : PeerNode} {fd : Fd} {session : Session}

/-! ## The same peers in both maps -/

/-- The handler and the registry hold the same descriptors. The two are different objects in the
    source, and each keeps a map of its own; the handler's holds weak pointers to the sessions that
    the registry owns. -/
def PeerNode.SameFds (s : PeerNode) : Prop := ∀ fd, (s.peers fd).isSome = (s.byFd fd).isSome

theorem PeerNode.SameFds.without (hs : s.SameFds) (fd : Fd) (ip : Bytes) :
    (s.without fd ip).SameFds := by
  intro other
  by_cases hother : other = fd
  · subst hother
    simp [PeerNode.without]
  · simp [PeerNode.without, Table.erase_of_ne hother, hs other]

/-- A call keeps it so, also when it fails. Disconnecting takes the peer out of both maps or of
    neither, since the check of the address comes before anything is erased. -/
theorem step_sameFds (hs : s.SameFds) (call : PeerCall) : (s.step call).SameFds := by
  cases call with
  | registerPeerConnection session =>
    cases hfd : s.byFd session.fd with
    | some session' =>
      rw [step_register (register_known hfd)]
      exact hs
    | none =>
      obtain ⟨s', hrun, hbyFd, -, hpeers⟩ := register_new hfd
      rw [step_register hrun]
      intro other
      rw [hbyFd, hpeers]
      by_cases hother : other = session.fd
      · rw [hother, Table.insert_self, Table.insert_self]
        rfl
      · rw [Table.insert_of_ne hother, Table.insert_of_ne hother]
        exact hs other
  | disconnectFromPeer fd =>
    cases hfd : s.byFd fd with
    | none =>
      rw [step_disconnect_gone hfd]
      exact hs
    | some session =>
      cases hip : s.byIp session.ip with
      | none =>
        rw [step_disconnect (disconnect_not_found hfd hip)]
        exact hs
      | some fd' =>
        rw [step_disconnect (disconnect_found hfd hip)]
        exact hs.without fd session.ip

/-- So it holds after any calls, as long as no event comes in between. -/
theorem run_sameFds (hs : s.SameFds) (calls : List PeerCall) : (s.run calls).SameFds := by
  induction calls generalizing s with
  | nil => exact hs
  | cons call calls ih => exact ih (step_sameFds hs call)

/-! ## What leaves the sessions where they are -/

/-- What sending does not change: who is there, and what has come in. The callback may send while
    the loop is taking messages off a buffer, and this says that it does not disturb it. -/
def PeerNode.inputs (s : PeerNode) : Table Fd Unit × Table Fd Bytes :=
  (s.peers, fun fd => (s.byFd fd).map Session.inBuffer)

/-- Who is there, and nothing about what is in the sessions. -/
def PeerNode.fds (s : PeerNode) : Table Fd Unit × (Fd → Bool) :=
  (s.peers, fun fd => (s.byFd fd).isSome)

theorem fds_of_inputs (h : s'.inputs = s.inputs) : s'.fds = s.fds := by
  have hbuffers : ∀ fd, (s'.byFd fd).map Session.inBuffer = (s.byFd fd).map Session.inBuffer :=
    fun fd => congrFun (congrArg Prod.snd h) fd
  have hpeers : s'.peers = s.peers := congrArg Prod.fst h
  refine Prod.ext hpeers (funext fun fd => ?_)
  have hsome := congrArg Option.isSome (hbuffers fd)
  rwa [Option.isSome_map, Option.isSome_map] at hsome

theorem isSome_of_fds (h : s'.fds = s.fds) (fd : Fd) : (s'.byFd fd).isSome = (s.byFd fd).isSome :=
  congrFun (congrArg Prod.snd h) fd

theorem PeerNode.SameFds.of_fds (hs : s.SameFds) (h : s'.fds = s.fds) : s'.SameFds := by
  intro fd
  have hpeers : s'.peers = s.peers := congrArg Prod.fst h
  rw [hpeers, isSome_of_fds h]
  exact hs fd

theorem setSession_inputs (h : s.byFd fd = some session) {session' : Session}
    (hbuffer : session'.inBuffer = session.inBuffer) :
    (s.setSession fd session').inputs = s.inputs := by
  refine Prod.ext rfl (funext fun other => ?_)
  by_cases hother : other = fd
  · subst hother
    simp [PeerNode.inputs, PeerNode.setSession, h, hbuffer]
  · simp [PeerNode.inputs, PeerNode.setSession, Table.insert_of_ne hother]

theorem setSession_fds (h : s.byFd fd = some session) (session' : Session) :
    (s.setSession fd session').fds = s.fds := by
  refine Prod.ext rfl (funext fun other => ?_)
  by_cases hother : other = fd
  · subst hother
    simp [PeerNode.fds, PeerNode.setSession, h]
  · simp [PeerNode.fds, PeerNode.setSession, Table.insert_of_ne hother]

/-- A session that is there is used, and sending is all that is done. The first part is that the
    call does not fail with `sessionGone`; it may fail otherwise. -/
abbrev OnlyQueues {α : Type} (x : PeerM α) (s : PeerNode) : Prop :=
  Respects (fun s s' => s'.inputs = s.inputs) (· ≠ .sessionGone) x s

/-- A session that is there is used, and all sessions stay. -/
abbrev LeavesSessions {α : Type} (x : PeerM α) (s : PeerNode) : Prop :=
  Respects (fun s s' => s'.fds = s.fds) (· ≠ .sessionGone) x s

theorem OnlyQueues.leavesSessions {α : Type} {x : PeerM α} (h : OnlyQueues x s) :
    LeavesSessions x s := h.mono fun _ => fds_of_inputs

/-- The two properties are kept by sequencing, which is what the proofs below are made of: one line
    of the source, one rule. -/
theorem OnlyQueues.bind {α β : Type} {x : PeerM α} {f : α → PeerM β} (hx : OnlyQueues x s)
    (hf : ∀ a s', OnlyQueues (f a) s') : OnlyQueues (x >>= f) s :=
  Respects.bind hx (fun a s' _ => hf a s') (fun _ h => h) fun _ _ h h' => h'.trans h

/-- For this one the second part is only known to be good for states with the same sessions, as it
    uses one of them. -/
theorem LeavesSessions.bind {α β : Type} {x : PeerM α} {f : α → PeerM β} (hx : LeavesSessions x s)
    (hf : ∀ a s', s'.fds = s.fds → LeavesSessions (f a) s') : LeavesSessions (x >>= f) s :=
  Respects.bind hx hf (fun _ h => h) fun _ _ h h' => h'.trans h

theorem setWriteInterest_onlyQueues (fd : Fd) (interest : Bool) (s : PeerNode) :
    OnlyQueues (setWriteInterest fd interest) s := by
  refine .get_bind ?_
  split
  · exact .pure _ rfl
  · exact .of_ok rfl rfl

/-- A peer that is not there is passed over; one that is there has more in its output. -/
theorem sendToPeer_onlyQueues (fd : Fd) (data : Bytes) (s : PeerNode) :
    OnlyQueues (sendToPeer fd data) s := by
  refine .get_bind ?_
  split
  · exact .pure _ rfl
  · rename_i session h
    refine .set_bind (setWriteInterest_onlyQueues fd true _) fun _ ht => ?_
    exact ht.trans (setSession_inputs h rfl)

theorem sendAll_onlyQueues (sent : List (Fd × Bytes)) (s : PeerNode) :
    OnlyQueues (sent.forM fun p => sendToPeer p.1 p.2) s := by
  induction sent generalizing s with
  | nil => exact .pure _ rfl
  | cons p sent ih => exact .bind (sendToPeer_onlyQueues p.1 p.2 s) fun _ s' => ih s'

/-- The callback sends, and may fail then: what it throws is not `sessionGone`. -/
theorem onData_onlyQueues (fd : Fd) (msg : Bytes) (s : PeerNode) :
    OnlyQueues (PeerEventHandler.onData fd msg) s := by
  refine .get_bind ?_
  split
  · exact .pure _ rfl
  · refine .set_bind (OnlyQueues.bind (sendAll_onlyQueues _ _) fun _ s' => ?_) fun _ ht => ht
    split
    · exact .pure _ rfl
    · exact .throw rfl fun h => by cases h

/-- The buffer is flushed, and the interest in writing ends if nothing is left. -/
theorem onPeerWritable_leavesSessions (h : s.byFd fd = some session) (a : WriteAnswer) :
    LeavesSessions (onPeerWritable fd a) s := by
  have hflush : ∀ t, OnlyQueues (if (session.transport.flushBuffer session.out a).done then
      disableWrite fd else pure ()) t := by
    intro t
    split
    · exact setWriteInterest_onlyQueues fd false t
    · exact .pure _ rfl
  refine .after_ok (sessionAt_some h) (?_ : LeavesSessions _ s) fun _ ht => ht
  refine .after_ok rfl (hflush _) fun t ht => ?_
  exact (fds_of_inputs ht).trans (setSession_fds h _)

/-! ## The messages in a buffer -/

/-- One turn of the loop, when there is a message: it is taken off before the callback is called, so
    the callback sees a session that is ready for the next. -/
theorem handleMessages_turn {msg rest : Bytes} (h : s.byFd fd = some session)
    (hmsg : FramerMessage.hasMessageInBuffer session.inBuffer = true)
    (hextract : FramerMessage.extractMessage session.inBuffer = .ok (msg, rest)) (turns : Nat) :
    PeerEventHandler.handleMessages fd (turns + 1) s
      = (PeerEventHandler.onData fd msg >>= fun _ => PeerEventHandler.handleMessages fd turns)
          (s.setSession fd { session with inBuffer := rest }) := by
  rw [PeerEventHandler.handleMessages, bind_ok (sessionAt_some h), hmsg, if_pos rfl, hextract]
  rfl

theorem handleMessages_none (h : s.byFd fd = some session)
    (hmsg : FramerMessage.hasMessageInBuffer session.inBuffer = false) (turns : Nat) :
    PeerEventHandler.handleMessages fd (turns + 1) s = .ok () s := by
  rw [PeerEventHandler.handleMessages, bind_ok (sessionAt_some h), hmsg]
  rfl

theorem handleMessages_error {x : Failure} (h : s.byFd fd = some session)
    (hmsg : FramerMessage.hasMessageInBuffer session.inBuffer = true)
    (hextract : FramerMessage.extractMessage session.inBuffer = .error x) (turns : Nat) :
    PeerEventHandler.handleMessages fd (turns + 1) s = .error (.failed x) s := by
  rw [PeerEventHandler.handleMessages, bind_ok (sessionAt_some h), hmsg, if_pos rfl, hextract]
  rfl

/-- By induction on the turns. A turn changes buffers, so the session is there at the next one. The
    source locks a weak pointer at each turn and dereferences what it gets; that this is not null is
    the same statement. -/
theorem handleMessages_leavesSessions (turns : Nat) (h : (s.byFd fd).isSome) :
    LeavesSessions (PeerEventHandler.handleMessages fd turns) s := by
  induction turns generalizing s with
  | zero => exact .pure _ rfl
  | succ turns ih =>
    obtain ⟨session, hsession⟩ := Option.isSome_iff_exists.mp h
    cases hmsg : FramerMessage.hasMessageInBuffer session.inBuffer with
    | false => exact .of_ok (handleMessages_none hsession hmsg turns) rfl
    | true =>
      cases hextract : FramerMessage.extractMessage session.inBuffer with
      | error x =>
        have hrun := handleMessages_error hsession hmsg hextract turns
        refine ⟨by rw [finalState_error hrun], fun he => ?_⟩
        rw [hrun] at he
        cases he
        intro h
        cases h
      | ok taken =>
        -- the callback may send to anyone, but it removes nobody
        obtain ⟨msg, rest⟩ := taken
        have hset := setSession_fds hsession { session with inBuffer := rest }
        refine .of_run (handleMessages_turn hsession hmsg hextract turns)
          (LeavesSessions.bind (onData_onlyQueues fd msg _).leavesSessions fun _ t ht => ih ?_)
          fun t ht => ht.trans hset
        rw [isSome_of_fds (ht.trans hset)]
        exact h

/-- With a turn for each byte, and one more, the loop comes to its end: there is no message left.
    What a callback sends does not touch what has come in. A message takes at least four bytes, so
    the number of turns is more than enough; the loop of the source has no bound, and this says that
    it needs none. -/
theorem handleMessages_drains {turns : Nat} (h : s.byFd fd = some session)
    (hturns : session.inBuffer.length < turns)
    (hrun : PeerEventHandler.handleMessages fd turns s = .ok () s') :
    ∃ session', s'.byFd fd = some session' ∧
      FramerMessage.hasMessageInBuffer session'.inBuffer = false := by
  induction turns generalizing s session with
  | zero => omega
  | succ turns ih =>
    cases hmsg : FramerMessage.hasMessageInBuffer session.inBuffer with
    | false =>
      rw [handleMessages_none h hmsg] at hrun
      cases hrun
      exact ⟨session, h, hmsg⟩
    | true =>
      cases hextract : FramerMessage.extractMessage session.inBuffer with
      | error x =>
        rw [handleMessages_error h hmsg hextract] at hrun
        cases hrun
      | ok taken =>
        obtain ⟨msg, rest⟩ := taken
        rw [handleMessages_turn h hmsg hextract] at hrun
        obtain ⟨u, t, hcallback, hrest⟩ := bind_eq_ok hrun
        have hinputs :=
          (onData_onlyQueues fd msg (s.setSession fd { session with inBuffer := rest })).state
        rw [finalState_ok hcallback] at hinputs
        have hbuffer : (t.byFd fd).map Session.inBuffer = some rest := by
          rw [show (t.byFd fd).map Session.inBuffer = t.inputs.2 fd from rfl, hinputs]
          simp [PeerNode.inputs, PeerNode.setSession]
        obtain ⟨session', hsession', hrest'⟩ := Option.map_eq_some_iff.mp hbuffer
        have hshrinks := extractMessage_shrinks hextract
        exact ih hsession' (by rw [hrest']; omega) hrest

/-! ## One event -/

section

variable {e : PeerEvent}

/-- Bytes have come, or none have for the moment: they are put behind what there was, and the loop
    runs. -/
theorem receive_of_received (hpeer : s.peers e.fd = some ()) (h : s.byFd e.fd = some session)
    (hstatus : e.received.status = .ok ∨ e.received.status = .wouldBlock) :
    LeavesSessions (PeerEventHandler.receive e) s := by
  let session' : Session := { session with inBuffer := session.inBuffer ++ e.received.data }
  have hrun : PeerEventHandler.receive e s
      = (PeerEventHandler.handleMessages e.fd (session'.inBuffer.length + 1) >>= fun _ => pure true)
          (s.setSession e.fd session') := by
    unfold PeerEventHandler.receive PeerEventHandler.tryReceive
    rw [get_bind_run, hpeer]
    dsimp only
    rw [h]
    dsimp only
    rw [decide_eq_true hstatus]
    rfl
  have hthere : ((s.setSession e.fd session').byFd e.fd).isSome := by
    rw [isSome_of_fds (setSession_fds h _), h]
    rfl
  refine .of_run hrun ((handleMessages_leavesSessions _ hthere).bind_pure fun _ => true) ?_
  exact fun t ht => ht.trans (setSession_fds h _)

/-- The iterator is used after the entry has been erased. `remove_peer` erases the entry that the
    iterator points to, and the next line dereferences it, so this fails always and not only for
    some states. -/
theorem dropPeer_gone (fd : Fd) (s : PeerNode) :
    PeerEventHandler.dropPeer fd s = .error .sessionGone { s with peers := s.peers.erase fd } := by
  have hremove : removePeer fd s = .ok () { s with peers := s.peers.erase fd } := rfl
  have herased : s.peers.erase fd fd = none := Table.erase_self ..
  unfold PeerEventHandler.dropPeer
  rw [bind_ok hremove, get_bind_run]
  dsimp only
  rw [herased]
  rfl

/-- When nothing can be received any more, the peer is dropped, with what `dropPeer_gone` says. -/
theorem receive_of_lost (hpeer : s.peers e.fd = some ()) (h : s.byFd e.fd = some session)
    (hstatus : ¬(e.received.status = .ok ∨ e.received.status = .wouldBlock)) :
    ∃ s', PeerEventHandler.receive e s = .error .sessionGone s' := by
  let session' : Session := { session with inBuffer := session.inBuffer ++ e.received.data }
  have hrun : PeerEventHandler.receive e s
      = (PeerEventHandler.dropPeer e.fd >>= fun _ => pure true) (s.setSession e.fd session') := by
    unfold PeerEventHandler.receive PeerEventHandler.tryReceive
    rw [get_bind_run, hpeer]
    dsimp only
    rw [h]
    dsimp only
    rw [decide_eq_false hstatus]
    rfl
  exact ⟨_, hrun.trans (bind_error (dropPeer_gone _ _))⟩

theorem peerEvent_uninitialized (h : s.initialized = false) :
    PeerEventHandler.handleEvent e s = .ok () s := by
  unfold PeerEventHandler.handleEvent
  rw [get_bind_run, h]
  rfl

/-- A hang-up is looked at first. The handler forgets the peer before the registry is asked. -/
theorem peerEvent_hangUp (h : s.initialized = true)
    (hup : e.mask &&& (EPOLLERR ||| EPOLLHUP ||| EPOLLRDHUP) ≠ 0) :
    PeerEventHandler.handleEvent e s = (disconnectFromPeer e.fd >>= fun _ => pure ())
      { s with peers := s.peers.erase e.fd } := by
  unfold PeerEventHandler.handleEvent
  rw [get_bind_run, if_neg (by simp [h]), if_pos hup]
  rfl

/-- Without a hang-up: first what can be read, then what can be written. The second is done only if
    the first says to go on. -/
theorem peerEvent_ready (h : s.initialized = true)
    (hup : e.mask &&& (EPOLLERR ||| EPOLLHUP ||| EPOLLRDHUP) = 0) :
    PeerEventHandler.handleEvent e s
      = ((if e.mask &&& EPOLLIN ≠ 0 then PeerEventHandler.receive e else pure true) >>=
          fun goesOn =>
            if goesOn ∧ e.mask &&& EPOLLOUT ≠ 0 then onPeerWritable e.fd e.written
            else pure ()) s := by
  unfold PeerEventHandler.handleEvent
  rw [get_bind_run, if_neg (by simp [h]), if_neg (not_not.mpr hup)]
  split <;> rfl

/-- Whatever it does, the handling of the event dereferences no session that is gone, and leaves the
    handler and the registry with the same peers. An exception of the callback is not excluded, and
    passes through the loop. -/
structure PeerNode.HandlesSafely (s : PeerNode) (e : PeerEvent) : Prop where
  present : ∀ s', PeerEventHandler.handleEvent e s ≠ .error .sessionGone s'
  sameFds : (finalState (PeerEventHandler.handleEvent e) s).SameFds

theorem LeavesSessions.handlesSafely (hs : s.SameFds)
    (h : LeavesSessions (PeerEventHandler.handleEvent e) s) : s.HandlesSafely e where
  present _ hfails := h.fails hfails rfl
  sameFds := hs.of_fds h.state

/-- A hang-up: the handler forgets the peer, and the registry must be able to. If it is not, the
    peer stays in one of the two maps, and every later event of the descriptor finds the handler
    without it. -/
theorem hangUp_iff (hs : s.SameFds) (h : s.byFd e.fd = some session)
    (hinit : s.initialized = true)
    (hup : e.mask &&& (EPOLLERR ||| EPOLLHUP ||| EPOLLRDHUP) ≠ 0) :
    s.HandlesSafely e ↔ (s.byIp session.ip).isSome := by
  let forgot : PeerNode := { s with peers := s.peers.erase e.fd }
  have hrun := peerEvent_hangUp hinit hup
  cases hip : s.byIp session.ip with
  | none =>
    have hstays : disconnectFromPeer e.fd forgot = .ok 1 forgot := disconnect_not_found h hip
    refine ⟨fun hsafe => ?_, fun hsome => by cases hsome⟩
    have hsame := hsafe.sameFds e.fd
    rw [finalState_ok (hrun.trans (bind_ok hstays))] at hsame
    simp [forgot, h] at hsame
  | some fd' =>
    have hleaves : disconnectFromPeer e.fd forgot = .ok 0 (forgot.without e.fd session.ip) :=
      disconnect_found h hip
    have hevent := hrun.trans (bind_ok hleaves)
    refine ⟨fun _ => rfl, fun _ => ⟨fun s' hfails => ?_, ?_⟩⟩
    · rw [hevent] at hfails
      cases hfails
    · -- The handler has erased the peer already, and does so once more.
      have htwice : forgot.without e.fd session.ip = s.without e.fd session.ip := by
        simp [forgot, PeerNode.without]
      rw [finalState_ok hevent, htwice]
      exact hs.without e.fd session.ip

/-- Nothing has hung up. What can be written is harmless, since it is done with sessions that are
    there; all depends on what `receive` says. The two directions use different halves of what is
    known: if the connection is lost, the run fails with `sessionGone` and there is nothing more to
    show; if it is not, reading and then writing leave all sessions in place, and the write needs to
    know that reading has. -/
theorem ready_iff (hs : s.SameFds) (h : s.byFd e.fd = some session) (hinit : s.initialized = true)
    (hup : e.mask &&& (EPOLLERR ||| EPOLLHUP ||| EPOLLRDHUP) = 0) :
    s.HandlesSafely e ↔ e.mask &&& EPOLLIN = 0 ∨
      e.received.status = .ok ∨ e.received.status = .wouldBlock := by
  have hevent := peerEvent_ready hinit hup
  have hpeer : s.peers e.fd = some () := by
    have hsome : (s.peers e.fd).isSome := by
      rw [hs e.fd, h]
      rfl
    obtain ⟨u, hu⟩ := Option.isSome_iff_exists.mp hsome
    exact hu
  -- whatever has been read, the session to write to is still there
  have hwrite : ∀ (goesOn : Bool) (t : PeerNode), t.fds = s.fds → LeavesSessions
      (if goesOn ∧ e.mask &&& EPOLLOUT ≠ 0 then onPeerWritable e.fd e.written else pure ()) t := by
    intro goesOn t ht
    split
    · have hthere : (t.byFd e.fd).isSome := by
        rw [isSome_of_fds ht, h]
        rfl
      obtain ⟨session', h'⟩ := Option.isSome_iff_exists.mp hthere
      exact onPeerWritable_leavesSessions h' e.written
    · exact .pure _ rfl
  constructor
  · intro hsafe
    by_contra hlost
    obtain ⟨hin, hstatus⟩ := not_or.mp hlost
    obtain ⟨s', hfails⟩ := receive_of_lost hpeer h hstatus
    rw [if_pos hin, bind_error hfails] at hevent
    exact hsafe.present s' hevent
  · intro hgood
    have hread : LeavesSessions
        (if e.mask &&& EPOLLIN ≠ 0 then PeerEventHandler.receive e else pure true) s := by
      split
      · rename_i hin
        exact receive_of_received hpeer h (hgood.resolve_left hin)
      · exact .pure _ rfl
    have hall : LeavesSessions (PeerEventHandler.handleEvent e) s :=
      .of_run hevent (LeavesSessions.bind hread hwrite) fun _ ht => ht
    exact hall.handlesSafely hs

/-- **An event is handled with sessions that are there, and leaves both maps with the same
    peers, exactly if** after a hang-up the registry has an entry for the address of the peer, and
    otherwise, if there is something to be read, `receive` returns `OK` or `WOULDBLOCK`. -/
theorem handles_safely_iff (hs : s.SameFds) (h : s.byFd e.fd = some session) :
    s.HandlesSafely e ↔
      (s.initialized = true →
        (e.mask &&& (EPOLLERR ||| EPOLLHUP ||| EPOLLRDHUP) ≠ 0 ∧ (s.byIp session.ip).isSome) ∨
        (e.mask &&& (EPOLLERR ||| EPOLLHUP ||| EPOLLRDHUP) = 0 ∧
          (e.mask &&& EPOLLIN = 0 ∨
            e.received.status = .ok ∨ e.received.status = .wouldBlock))) := by
  cases hinit : s.initialized with
  | false =>
    have hsafe : LeavesSessions (PeerEventHandler.handleEvent e) s :=
      .of_ok (peerEvent_uninitialized hinit) rfl
    simp [hsafe.handlesSafely hs]
  | true =>
    by_cases hup : e.mask &&& (EPOLLERR ||| EPOLLHUP ||| EPOLLRDHUP) = 0
    · rw [ready_iff hs h hinit hup]
      simp [hup]
    · rw [hangUp_iff hs h hinit hup]
      simp [hup]

end

/-- A message comes in, and there is room for what is to be sent. -/
theorem message_handled_safely :
    let node : PeerNode := { initialized := true }
    let s := node.run [.registerPeerConnection (.tcp 4 (bytes "10.0.0.1"))]
    s.HandlesSafely
      { fd := 4
        mask := EPOLLIN ||| EPOLLOUT
        received := ⟨.ok, FramerMessage.formMessage (bytes "hi") [], 0⟩ } := by
  intro node s
  refine (handles_safely_iff (run_sameFds (fun _ => rfl) _) rfl).mpr fun _ => .inr ⟨by decide, ?_⟩
  exact .inr (.inl rfl)

/-- The other side has closed the connection, and the handler uses a session that is gone. And
    with two peers at one address, a hang-up of the one that is left when the other has been
    disconnected takes it out of the handler and not out of the registry. -/
theorem closed_connection_dangles :
    let node : PeerNode := { initialized := true }
    let s := node.run [.registerPeerConnection (.tcp 4 (bytes "127.0.0.1"))]
    let t := node.run [.registerPeerConnection (.tcp 4 (bytes "127.0.0.1")),
      .registerPeerConnection (.tcp 5 (bytes "127.0.0.1")), .disconnectFromPeer 4]
    (s.SameFds ∧ (s.byFd 4).isSome ∧ ∃ s', PeerEventHandler.handleEvent
        { fd := 4, mask := EPOLLIN, received := ⟨.closed, [], 0⟩ } s = .error .sessionGone s') ∧
      (t.SameFds ∧ (t.byFd 5).isSome ∧
        ¬(finalState (PeerEventHandler.handleEvent { fd := 5, mask := EPOLLHUP }) t).SameFds) := by
  intro node s t
  refine ⟨⟨run_sameFds (fun _ => rfl) _, rfl, ?_⟩, run_sameFds (fun _ => rfl) _, rfl, fun h => ?_⟩
  · exact ⟨_, rfl⟩
  · have hsame := h 5
    cases hsame

end Messenger
