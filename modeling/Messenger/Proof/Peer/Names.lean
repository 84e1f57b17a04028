import Messenger.Proof.Peer.Events
import Messenger.Proof.Peer.Received
import Messenger.Proof.Server.Lobby

/-!
# Names among peers

A peer keeps for each name a descriptor and keys, in four tables. They are written together and
released in part, so of what one would expect of them three facts are left over every run
(`peer_directory_consistent`): a registered name has a descriptor, a descriptor's name has that
descriptor, and the keys of a registered name are those in use. What is not left is shown at the
end: a descriptor can be that of two names, of which it has only the later.

A name once taken keeps its descriptor and its first keys until a `DISCONNECT` comes on that
descriptor (`peer_name_kept`). Nothing else releases it. In particular `on_peer_disconnected` is
not set, so the name outlives the connection, and belongs to whoever gets the descriptor next.

Both results come from one rule for runs, `run_keeps`: what every call of the callback keeps is
kept by the run. For it one has to know that nothing else writes the four tables, neither a line
nor an accepted connection nor an event without a message, and which calls of the callback an event
makes. This is the first half, and it goes through all functions of a node to see what they hand
on.

The second half is about tables. Of the three facts the second is the one that each change could
break: a new name might have been the name of another descriptor, or a released descriptor that of
another name. What rules out the first is that such a name would have a descriptor and so be
registered; what rules out the second is that a name has one descriptor only.
-/

set_option autoImplicit false

namespace Messenger

open Messenger.Lib

/-! ## What is handed on -/

section HandedOn

/-- A call of the node that hands nothing on. These are all calls but `onData`, and the lemmas
    below say so for each of them, by the rules for what a call keeps. -/
abbrev HandsNothingOn {α : Type} (x : PeerM α) : Prop := Keeps PeerNode.handedOn x

/-- What is handed on is added at the end. -/
abbrev HandsOn {α : Type} (x : PeerM α) (s : PeerNode) : Prop :=
  Respects (fun s s' => s.handedOn <+: s'.handedOn) (fun _ => True) x s

theorem HandsNothingOn.handsOn {α : Type} {x : PeerM α} (h : HandsNothingOn x) (s : PeerNode) :
    HandsOn x s :=
  (h s).mono fun _ ht => ht ▸ List.prefix_refl _

theorem HandsOn.bind {α β : Type} {x : PeerM α} {f : α → PeerM β} {s : PeerNode} (hx : HandsOn x s)
    (hf : ∀ a s, HandsOn (f a) s) : HandsOn (x >>= f) s :=
  Respects.bind hx (fun a s' _ => hf a s') (fun _ h => h) fun _ _ h h' => h.trans h'

open PeerNode

theorem sessionAt_handsNothingOn (fd : Fd) : HandsNothingOn (sessionAt fd) := by
  refine .get_bind fun s => ?_
  split
  · exact .pure _
  · exact .throw _

theorem setWriteInterest_handsNothingOn (fd : Fd) (interest : Bool) :
    HandsNothingOn (setWriteInterest fd interest) := by
  intro s
  refine .get_bind ?_
  split
  · exact .pure _ rfl
  · exact .of_ok rfl rfl

theorem addFd_handsNothingOn (fd : Fd) : HandsNothingOn (addFd fd) := by
  intro s
  refine .get_bind ?_
  split
  · exact .of_ok rfl rfl
  · exact .pure _ rfl

/-- `on_peer_connected` is called here, which does not send anything on. -/
theorem registerPeerConnection_handsNothingOn (session : Session) :
    HandsNothingOn (registerPeerConnection session) := by
  refine .get_bind fun s => ?_
  split
  · exact .pure _
  · refine .bind (.modify fun _ => rfl) fun _ => .bind (addFd_handsNothingOn _) fun _ => ?_
    dsimp only
    split
    · exact .bind (.modify fun _ => rfl) fun _ => .bind (.modify fun _ => rfl) fun _ => .pure _
    · exact .bind (.modify fun _ => rfl) fun _ => .pure _

theorem disconnectFromPeer_handsNothingOn (fd : Fd) : HandsNothingOn (disconnectFromPeer fd) := by
  refine .bind (sessionAt_handsNothingOn fd) fun session => .get_bind fun s => ?_
  split
  · exact .pure _
  · refine .bind (.modify fun _ => rfl) fun _ => .bind (.modify fun _ => rfl) fun _ =>
      .bind (.modify fun _ => rfl) fun _ => .bind (.modify fun _ => rfl) fun _ => ?_
    dsimp only
    split
    · exact .bind (.modify fun _ => rfl) fun _ => .pure _
    · exact .pure _

theorem stop_handsNothingOn (peerFds : List Fd) : HandsNothingOn (stop peerFds) := by
  refine .get_bind fun s => ?_
  split
  · exact .pure _
  · refine .bind (.forM (fun fd => ?_) peerFds) fun _ => .modify fun _ => rfl
    exact .bind (disconnectFromPeer_handsNothingOn fd) fun _ => .pure _

theorem sendToPeer_handsNothingOn (fd : Fd) (data : Bytes) :
    HandsNothingOn (sendToPeer fd data) := by
  intro s
  refine .get_bind ?_
  split
  · exact .pure _ rfl
  · exact .set_bind (setWriteInterest_handsNothingOn fd true _) fun _ ht => ht

theorem broadcast_handsNothingOn (peerFds : List Fd) (data : Bytes) :
    HandsNothingOn (broadcast peerFds data) := by
  refine .forM (fun fd => ?_) peerFds
  exact .bind (sessionAt_handsNothingOn fd) fun session => .bind (.modify fun _ => rfl) fun _ =>
    setWriteInterest_handsNothingOn fd true

theorem connectToPeer_handsNothingOn (peerIp : Bytes) (connected : Option Fd) :
    HandsNothingOn (connectToPeer peerIp connected) := by
  unfold connectToPeer
  split
  · exact .pure _
  · exact .bind (registerPeerConnection_handsNothingOn _) fun _ => .pure _

theorem onPeerWritable_handsNothingOn (fd : Fd) (a : WriteAnswer) :
    HandsNothingOn (onPeerWritable fd a) := by
  refine .bind (sessionAt_handsNothingOn fd) fun session => .bind (.modify fun _ => rfl) fun _ => ?_
  split
  · exact setWriteInterest_handsNothingOn fd false
  · exact .pure _

/-- The one place where something is handed on, before the callback is called. What the callback
    does afterwards is to send. -/
theorem onData_handsOn (fd : Fd) (msg : Bytes) (s : PeerNode) :
    HandsOn (PeerEventHandler.onData fd msg) s := by
  refine .get_bind ?_
  split
  · exact .pure _ (List.prefix_refl _)
  · refine Respects.set_bind (?_ : Respects (fun s s' => s'.handedOn = s.handedOn) _ _ _)
      fun t ht => ht ▸ List.prefix_append ..
    refine Keeps.bind (.forM (fun p : Fd × Bytes => sendToPeer_handsNothingOn p.1 p.2) _)
      (fun _ => ?_) _
    split
    · exact .pure _
    · exact .throw _

theorem handleMessages_handsOn (fd : Fd) (turns : Nat) (s : PeerNode) :
    HandsOn (PeerEventHandler.handleMessages fd turns) s := by
  induction turns generalizing s with
  | zero => exact .pure _ (List.prefix_refl _)
  | succ turns ih =>
    refine HandsOn.bind ((sessionAt_handsNothingOn fd).handsOn s) fun session s => ?_
    split
    · split
      · exact .throw (List.prefix_refl _) trivial
      · refine HandsOn.bind (.modify (List.prefix_refl _)) fun _ s => ?_
        exact HandsOn.bind (onData_handsOn fd _ s) fun _ s => ih s
    · exact .pure _ (List.prefix_refl _)

theorem dropPeer_handsNothingOn (fd : Fd) : HandsNothingOn (PeerEventHandler.dropPeer fd) := by
  refine .bind (.modify fun _ => rfl) fun _ => .get_bind fun s => ?_
  split
  · exact .throw _
  · exact .bind (sessionAt_handsNothingOn fd) fun session =>
      .bind (disconnectFromPeer_handsNothingOn _) fun _ => .pure _

theorem receive_handsOn (e : PeerEvent) (s : PeerNode) :
    HandsOn (PeerEventHandler.receive e) s := by
  refine .get_bind ?_
  split
  · exact .pure _ (List.prefix_refl _)
  · split
    · refine HandsOn.bind (.modify (List.prefix_refl _)) fun _ s => ?_
      split
      · exact HandsOn.bind (.modify (List.prefix_refl _)) fun _ s => .pure _ (List.prefix_refl _)
      · exact .throw (List.prefix_refl _) trivial
    · rename_i session _
      refine .set_bind (?_ : HandsOn _ _) fun t ht => ht
      split
      · exact HandsOn.bind (handleMessages_handsOn _ _ _) fun _ s => .pure _ (List.prefix_refl _)
      · exact HandsOn.bind ((dropPeer_handsNothingOn e.fd).handsOn _) fun _ s =>
          .pure _ (List.prefix_refl _)

/-- A whole event: uninitialised, a hang-up, or reading and then writing. -/
theorem handleEvent_handsOn (e : PeerEvent) (s : PeerNode) :
    HandsOn (PeerEventHandler.handleEvent e) s := by
  cases hinit : s.initialized with
  | false => exact .of_ok (peerEvent_uninitialized hinit) (List.prefix_refl _)
  | true =>
    by_cases hup : e.mask &&& (EPOLLERR ||| EPOLLHUP ||| EPOLLRDHUP) = 0
    · refine .of_run (peerEvent_ready hinit hup) (HandsOn.bind ?_ fun goesOn s => ?_) fun _ h => h
      · split
        · exact receive_handsOn e s
        · exact .pure _ (List.prefix_refl _)
      · split
        · exact (onPeerWritable_handsNothingOn e.fd e.written).handsOn s
        · exact .pure _ (List.prefix_refl _)
    · refine .of_run (peerEvent_hangUp hinit hup) (HandsOn.bind ?_ fun _ s => ?_) fun _ h => h
      · exact (disconnectFromPeer_handsNothingOn e.fd).handsOn _
      · exact .pure _ (List.prefix_refl _)

end HandedOn

/-! ## What a run does to the directory -/

namespace MessagingPeer

variable {ssl : OpenSSL}

/-- What a line leaves alone: whom the peer knows, and what has been handed on. -/
def known (s : MessagingPeer) : PeerDirectory × List (Fd × Bytes) :=
  (s.context.directory, s.node.handedOn)

/-- A call of the node does not touch the context, and one that hands nothing on leaves both. -/
theorem onNode_keeps {α : Type} {x : PeerM α} (hx : HandsNothingOn x) : Keeps known (onNode x) := by
  intro s
  have hnode := hx.finalState s.node
  unfold onNode
  refine ⟨?_, fun _ => trivial⟩
  cases hrun : x s.node with
  | ok a node =>
    rw [finalState_ok hrun] at hnode
    simp only [finalState, hrun, known, hnode]
  | error e node =>
    rw [finalState_error hrun] at hnode
    simp only [finalState, hrun, known, hnode]

theorem liftFailure_keeps {α : Type} (x : Except Failure α) : Keeps known (liftFailure x) := by
  cases x with
  | ok a => exact .pure a
  | error e => exact .throw _

/-- Catching changes what is returned, and not what has been done. -/
theorem finalState_catchException {α : Type} (b : α) (x : MessagingPeerM α) (s : MessagingPeer) :
    finalState (catchException b x) s = finalState x s := by
  unfold finalState catchException
  cases x s with
  | ok a s' => rfl
  | error e s' =>
    cases e with
    | sessionGone => rfl
    | badFunctionCall => rfl
    | failed e => cases e <;> rfl

theorem connectFromPeer_keeps (answer : LineAnswer) (cmd : ConnectCommand) :
    Keeps known (connectFromPeer ssl answer cmd) := by
  refine .get_bind fun s => ?_
  split
  · exact .pure _
  · refine .bind (onNode_keeps (connectToPeer_handsNothingOn _ _)) fun fd => ?_
    split
    · exact .pure _
    · exact .bind (liftFailure_keeps _) fun msg => onNode_keeps (sendToPeer_handsNothingOn _ _)

/-- One case for each command. `/login` changes the peer's own name, and that is not part of what it
    knows of others. -/
theorem sendCommand_keeps (answer : LineAnswer) (msg : Message) (cmd : PeerCommand) :
    Keeps known (sendCommand ssl answer msg cmd) := by
  cases cmd with
  | exit => exact onNode_keeps (stop_handsNothingOn _)
  | connect => exact .bind (liftFailure_keeps _) fun cmd => connectFromPeer_keeps answer cmd
  | disconnect => exact .pure _
  | pmess => exact .pure _
  | login => exact .modify fun _ => rfl

theorem sendingHandler_keeps {answer : LineAnswer} {type : MessageType}
    {handle : Message → MessagingPeerM Unit} (h : sendingHandler ssl answer type = some handle)
    (msg : Message) : Keeps known (handle msg) := by
  cases type <;> cases h
  · exact onNode_keeps (broadcast_handsNothingOn _ _)
  · dsimp only
    split
    · exact .pure _
    · exact sendCommand_keeps answer msg _
  all_goals exact .pure _

theorem sendMsg_keeps (ssl : OpenSSL) (answer : LineAnswer) (line : Bytes) :
    Keeps known (sendMsg ssl answer line) := by
  refine .get_bind fun s => .bind (liftFailure_keeps _) fun msg => .bind ?_ fun _ => .pure _
  unfold dispatchSending
  split
  · exact .pure _
  · rename_i handle hhandler
    intro s
    refine ⟨?_, fun _ => trivial⟩
    rw [finalState_catchException]
    exact (Keeps.bind (sendingHandler_keeps hhandler msg) fun _ => .pure true).finalState s

theorem step_line_known (ssl : OpenSSL) (s : MessagingPeer) (now : UInt64) (text : Bytes)
    (answer : LineAnswer) : (s.step ssl (.line now text answer)).known = s.known :=
  (sendMsg_keeps ssl answer text).finalState { s with context := { s.context with now := now } }

theorem step_accepted_known (ssl : OpenSSL) (s : MessagingPeer) (session : PeerNode.Session) :
    (s.step ssl (.accepted session)).known = s.known :=
  congrArg (Prod.mk _) ((registerPeerConnection_handsNothingOn session).finalState s.node)

/-- What an event adds to what is handed on decides what becomes of the directory. For a line and
    for an accepted connection nothing is added. For an event of a descriptor the calls of the
    callback are replayed on the context: the callback is a parameter of the node, which does not
    know the context, so this is where the two meet. -/
theorem step_calls (ssl : OpenSSL) (s : MessagingPeer) (e : Event) :
    ∃ calls c, (s.step ssl e).node.handedOn = s.node.handedOn ++ calls ∧
      c.directory = s.context.directory ∧
      (s.step ssl e).context.directory = (afterCalls ssl c calls).directory := by
  have hquiet (h : (s.step ssl e).known = s.known) :
      ∃ calls c, (s.step ssl e).node.handedOn = s.node.handedOn ++ calls ∧
        c.directory = s.context.directory ∧
        (s.step ssl e).context.directory = (afterCalls ssl c calls).directory :=
    ⟨[], s.context, (congrArg Prod.snd h).trans (List.append_nil _).symm, rfl, congrArg Prod.fst h⟩
  cases e with
  | line now text answer => exact hquiet (step_line_known ssl s now text answer)
  | accepted session => exact hquiet (step_accepted_known ssl s session)
  | event now e =>
    let c := { s.context with now := now }
    let callback := onDataCallback ssl c s.node.handedOn.length
    obtain ⟨calls, hcalls⟩ := (handleEvent_handsOn e
      { s.node with callbacks := { s.node.callbacks with onData := some callback } }).state
    refine ⟨calls, c, hcalls.symm, rfl, ?_⟩
    show (afterCalls ssl c (List.drop _ (finalState (PeerEventHandler.handleEvent e) _).handedOn)
      ).directory = _
    rw [← hcalls]
    exact congrArg (fun l => (afterCalls ssl c l).directory) List.drop_left

/-! ## Invariants -/

section Invariant

variable {I : PeerDirectory → Prop}

/-- `I` is kept by whatever a call of the callback can do to the directory. The descriptor and the
    bytes are fixed, so that a run can be asked about its own calls only. -/
def Kept (ssl : OpenSSL) (I : PeerDirectory → Prop) (call : Fd × Bytes) : Prop :=
  ∀ msg d d', Serializer.deserialize call.2 = .ok msg → d.Change ssl call.1 msg d' → I d → I d'

/-- By induction on the calls. Bytes that cannot be decoded change nothing, and for the others it is
    one of the three changes. -/
theorem afterCalls_keeps {calls : List (Fd × Bytes)} (hkept : ∀ call ∈ calls, Kept ssl I call)
    (c : PeerContext) (hc : I c.directory) : I (afterCalls ssl c calls).directory := by
  induction calls generalizing c with
  | nil => exact hc
  | cons call calls ih =>
    refine ih (fun call hmem => hkept call (List.mem_cons_of_mem _ hmem)) _ ?_
    cases hmsg : Serializer.deserialize call.2 with
    | error x =>
      have hsame := finalState_error (onData_error ssl hmsg call.1 c)
      exact (congrArg (fun c => I c.directory) hsame).mpr hc
    | ok msg =>
      have hreceives := onData_receives ssl hmsg call.1 c
      exact hkept call List.mem_cons_self msg _ _ hmsg hreceives.change hc

theorem run_prefix (ssl : OpenSSL) (s : MessagingPeer) (events : List Event) :
    s.node.handedOn <+: (s.run ssl events).node.handedOn := by
  induction events generalizing s with
  | nil => exact List.prefix_refl _
  | cons e events ih =>
    obtain ⟨calls, -, hcalls, -⟩ := step_calls ssl s e
    exact (hcalls ▸ List.prefix_append ..).trans (ih (s.step ssl e))

/-- What every call of a run keeps is kept by the run. The calls are those that the run adds to
    `handedOn`; each event adds some of them, and the induction cuts the list at the event. -/
theorem run_keeps (ssl : OpenSSL) (s : MessagingPeer) (events : List Event)
    (hkept : ∀ call ∈ (s.run ssl events).node.handedOn.drop s.node.handedOn.length,
      Kept ssl I call) (hs : I s.context.directory) : I (s.run ssl events).context.directory := by
  induction events generalizing s with
  | nil => exact hs
  | cons e events ih =>
    obtain ⟨calls, c, hcalls, hc, hafter⟩ := step_calls ssl s e
    obtain ⟨later, hlater⟩ := run_prefix ssl (s.step ssl e) events
    have hrun : (s.run ssl (e :: events)).node.handedOn = s.node.handedOn ++ (calls ++ later) := by
      rw [← List.append_assoc, ← hcalls]
      exact hlater.symm
    rw [hrun, List.drop_left] at hkept
    refine ih (s.step ssl e) ?_ ?_
    · rw [← hlater, List.drop_left]
      exact fun call hmem => hkept call (List.mem_append_right _ hmem)
    · rw [hafter]
      refine afterCalls_keeps (fun call hmem => hkept call (List.mem_append_left _ hmem)) c ?_
      rw [hc]
      exact hs

end Invariant

end MessagingPeer

/-! ## What the tables have in common -/

namespace PeerDirectory

variable {ssl : OpenSSL} {d d' : PeerDirectory} {fd g : Fd} {u v : Name} {keys : User}
  {msg : Message}

/-- The three facts that every message keeps. A name is registered exactly if it has a descriptor;
    the name of a descriptor has that descriptor; and the keys in use for a registered name are
    those it was registered with, if OpenSSL takes both.

    The converse of `named` fails, since a second name may be bound to a descriptor and the first
    keeps it in `nameToFd`; so does that of `cached`, since `release` leaves the keys. -/
structure Consistent (ssl : OpenSSL) (d : PeerDirectory) : Prop where
  registered : ∀ u, d.users u = none ↔ d.sessions.nameToFd u = none
  named : ∀ fd u, d.sessions.fdToName fd = some u → d.sessions.nameToFd u = some fd
  cached : ∀ u keys, d.users u = some keys → ssl.dhAccepts keys.publicDHKey = true →
    ssl.edAccepts keys.publicIdentityKey = true →
    d.dhKeys u = some keys.publicDHKey ∧ d.identityKeys u = some keys.publicIdentityKey

/-- A new name keeps the three facts. The hard one is `named`: another descriptor might have the new
    name already, without the name having a descriptor. It has not, since such a name would have a
    descriptor by `named`, and so would be registered by `registered`, and it is not. -/
theorem Consistent.register (h : d.Consistent ssl) (hfresh : d.users u = none) (fd : Fd)
    (keys : User) : (d.register ssl fd u keys).Consistent ssl where
  registered v := by
    by_cases hv : v = u
    · subst hv
      simp [PeerDirectory.register, SessionManager.bind]
    · simp only [PeerDirectory.register, SessionManager.bind, Table.insert_of_ne hv]
      exact h.registered v
  named fd' v hname := by
    by_cases hfd : fd' = fd
    · subst hfd
      obtain rfl : u = v := by simpa [PeerDirectory.register, SessionManager.bind] using hname
      simp [PeerDirectory.register, SessionManager.bind]
    · simp only [PeerDirectory.register, SessionManager.bind, Table.insert_of_ne hfd] at hname
      have hconnection := h.named fd' v hname
      -- the name of another descriptor is not the new one, as that is not registered
      have hv : v ≠ u := by
        rintro rfl
        rw [(h.registered v).mp hfresh] at hconnection
        cases hconnection
      simp only [PeerDirectory.register, SessionManager.bind, Table.insert_of_ne hv]
      exact hconnection
  cached v keys' hkeys hdh hed := by
    by_cases hv : v = u
    · subst hv
      obtain rfl : keys = keys' := by simpa [PeerDirectory.register] using hkeys
      simp [PeerDirectory.register, hdh, hed]
    · have hold := h.cached v keys'
        (by simpa [PeerDirectory.register, Table.insert_of_ne hv] using hkeys) hdh hed
      simp only [PeerDirectory.register]
      split <;> split <;> simpa [Table.insert_of_ne hv] using hold

theorem unbind_eq {m : SessionManager} (h : m.fdToName fd = some u) :
    m.unbind fd = { fdToName := m.fdToName.erase fd, nameToFd := m.nameToFd.erase u } := by
  unfold SessionManager.unbind
  rw [h]

/-- Releasing a name keeps them too. Again `named` is the one to look at: the descriptor of another
    name is not the one that is released, as each name has one descriptor only. -/
theorem Consistent.release (h : d.Consistent ssl) (hbound : d.sessions.fdToName fd = some u) :
    (d.release fd u).Consistent ssl where
  registered v := by
    simp only [PeerDirectory.release, unbind_eq hbound]
    by_cases hv : v = u
    · subst hv
      simp
    · simp only [Table.erase_of_ne hv]
      exact h.registered v
  named fd' v hname := by
    simp only [PeerDirectory.release, unbind_eq hbound] at hname ⊢
    by_cases hfd : fd' = fd
    · subst hfd
      simp at hname
    · rw [Table.erase_of_ne hfd] at hname
      have hconnection := h.named fd' v hname
      have hv : v ≠ u := by
        rintro rfl
        rw [h.named fd v hbound] at hconnection
        exact hfd (Option.some.inj hconnection).symm
      rw [Table.erase_of_ne hv]
      exact hconnection
  cached v keys hkeys hdh hed := by
    have hv : v ≠ u := by
      rintro rfl
      simp [PeerDirectory.release] at hkeys
    exact h.cached v keys (by simpa [PeerDirectory.release, Table.erase_of_ne hv] using hkeys)
      hdh hed

theorem Consistent.change (h : d.Consistent ssl) (hchange : d.Change ssl fd msg d') :
    d'.Consistent ssl := by
  cases hchange with
  | none => exact h
  | register hmsg hfresh => exact h.register hfresh fd _
  | release hmsg hbound => exact h.release hbound

/-! ## A name stays -/

/-- The name `u` is bound to the descriptor `g`, with `keys`. -/
structure Holds (d : PeerDirectory) (u : Name) (g : Fd) (keys : User) : Prop where
  user : d.users u = some keys
  connection : d.sessions.nameToFd u = some g

/-- Only a `DISCONNECT` on the name's own descriptor takes it away. The hard case is `release`: it
    erases the name of the descriptor, which is `u` only if the two tables say the same of it, and
    this is what `named` is for. -/
theorem Holds.change (hd : d.Consistent ssl) (h : d.Holds u g keys)
    (hchange : d.Change ssl fd msg d') (hmsg : fd = g → ¬msg.IsCommand .disconnect) :
    d'.Holds u g keys := by
  cases hchange with
  | none => exact h
  | @register v keys' hintroduces hfresh =>
    have hu : u ≠ v := by
      rintro rfl
      rw [h.user] at hfresh
      cases hfresh
    constructor
    · simpa [PeerDirectory.register, Table.insert_of_ne hu] using h.user
    · simpa [PeerDirectory.register, SessionManager.bind, Table.insert_of_ne hu] using h.connection
  | @release v hdisconnect hbound =>
    have hu : u ≠ v := by
      rintro rfl
      have hfd := h.connection.symm.trans (hd.named fd u hbound)
      exact hmsg (Option.some.inj hfd).symm hdisconnect
    constructor
    · simpa [PeerDirectory.release, Table.erase_of_ne hu] using h.user
    · simpa [PeerDirectory.release, unbind_eq hbound, Table.erase_of_ne hu] using h.connection

end PeerDirectory

/-! ## Every run -/

theorem new_consistent (ssl : OpenSSL) (encryption : EncryptionService) :
    ((MessagingPeer.new encryption).context.directory).Consistent ssl where
  registered _ := iff_of_true rfl rfl
  named _ _ h := by cases h
  cached _ _ h := by cases h

/-- **What the tables of a peer have in common** after any run of lines, accepted connections and
    events, whatever the others send: the three facts of `PeerDirectory.Consistent`. Every call
    keeps them, so nothing has to be known about the calls. -/
theorem peer_directory_consistent (ssl : OpenSSL) (encryption : EncryptionService)
    (events : List MessagingPeer.Event) :
    (((MessagingPeer.new encryption).run ssl events).context.directory).Consistent ssl :=
  MessagingPeer.run_keeps ssl _ events (fun _ _ _ _ _ _ hchange hd => hd.change hchange)
    (new_consistent ssl encryption)

/-- **A name stays with its descriptor.** Once a peer has a name, with keys and bound to the
    descriptor `g`, it has it so after any further run in which no `DISCONNECT` is handed on from
    `g`: whoever else introduces themselves under that name, and also when the connection is gone
    and the number `g` stands for nothing, or for the connection of somebody else. -/
theorem peer_name_kept (ssl : OpenSSL) (encryption : EncryptionService)
    (before events : List MessagingPeer.Event) {u : Name} {keys : User} {g : Fd}
    (huser : ((MessagingPeer.new encryption).run ssl before).context.users u = some keys)
    (hfd : ((MessagingPeer.new encryption).run ssl before).context.sessions.getFd u = .ok g)
    (hevents : ∀ raw msg, (g, raw) ∈
        ((MessagingPeer.new encryption).run ssl (before ++ events)).node.handedOn.drop
          ((MessagingPeer.new encryption).run ssl before).node.handedOn.length →
      Serializer.deserialize raw = .ok msg → ¬msg.IsCommand .disconnect) :
    ((MessagingPeer.new encryption).run ssl (before ++ events)).context.users u = some keys ∧
      ((MessagingPeer.new encryption).run ssl (before ++ events)).context.sessions.getFd u
        = .ok g := by
  have hrun : (MessagingPeer.new encryption).run ssl (before ++ events)
      = ((MessagingPeer.new encryption).run ssl before).run ssl events := List.foldl_append
  rw [hrun] at hevents ⊢
  have hconsistent : (((MessagingPeer.new encryption).run ssl before).context.directory).Consistent
      ssl := MessagingPeer.run_keeps ssl _ before (fun _ _ _ _ _ _ hchange hd => hd.change hchange)
    (new_consistent ssl encryption)
  generalize (MessagingPeer.new encryption).run ssl before = s at huser hfd hevents hconsistent ⊢
  -- the tables have to agree at each turn, so the invariant is both together
  have hkept :=
    MessagingPeer.run_keeps (I := fun d => d.Consistent ssl ∧ d.Holds u g keys) ssl s events
    (fun call hcall msg d d' hmsg hchange hd => ⟨hd.1.change hchange,
      PeerDirectory.Holds.change hd.1 hd.2 hchange ?_⟩)
    ⟨hconsistent, huser, getFd_ok_iff.mp hfd⟩
  · exact ⟨hkept.2.user, getFd_ok_iff.mpr hkept.2.connection⟩
  · rintro rfl
    exact hevents call.2 msg hcall hmsg

/-! ## Two names for a descriptor, and two descriptors for a name -/

/-- A `CONNECT` under a name, with keys made of one byte. -/
def connectBytes (name : String) (key : UInt8) : Bytes :=
  Serializer.serialize {
    header := { type := .command }
    metalen := 6
    metadata := [[CommandType.connect.toByte], bytes "10.0.0.1", bytes "9000",
      List.replicate 32 key, List.replicate 32 key, List.replicate 64 key]
    payload := bytes name }

def introducing (fd : Fd) (name : String) (key : UInt8) : MessagingPeer.Event :=
  .event 0 { fd := fd, mask := EPOLLIN, received :=
    ⟨.ok, FramerMessage.formMessage (connectBytes name key) [], 0⟩ }

/-- It comes on a new connection. -/
def connecting (fd : Fd) (key : UInt8) : List MessagingPeer.Event :=
  [.accepted { fd := fd, ip := bytes "10.0.0.1", transport := .stream (.tcp {}) },
    introducing fd "alice" key]

/-- The first one hangs up, and the second one comes. -/
def secondAlice : List MessagingPeer.Event :=
  .event 0 { fd := 5, mask := EPOLLHUP } :: connecting 6 2

def quietService : EncryptionService := { dhKey := [], identityKey := [], entropy := zeroEntropy }

/-- Why `PeerDirectory.Consistent` says no more: after a second `CONNECT` on the descriptor it has
    the second name, and the first name still has the descriptor. -/
example :
    let sessions := ((MessagingPeer.new quietService).run clearSSL
      (connecting 5 1 ++ [introducing 5 "bob" 2])).context.sessions
    sessions.getFd (bytes "alice") = .ok 5 ∧ sessions.getFd (bytes "bob") = .ok 5 ∧
      sessions.getUsername 5 = .ok (bytes "bob") := by
  decide +kernel

/-- Somebody else cannot take Alice's name, although her connection is gone; neither can she. -/
theorem first_alice_kept :
    ((MessagingPeer.new quietService).run clearSSL (connecting 5 1 ++ secondAlice)).context.users
        (bytes "alice") = some ⟨List.replicate 32 1, List.replicate 32 1, List.replicate 64 1⟩ ∧
      ((MessagingPeer.new quietService).run clearSSL (connecting 5 1 ++ secondAlice)
        ).context.sessions.getFd (bytes "alice") = .ok 5 := by
  have hcalls : ((MessagingPeer.new quietService).run clearSSL
      (connecting 5 1 ++ secondAlice)).node.handedOn.drop ((MessagingPeer.new quietService).run
        clearSSL (connecting 5 1)).node.handedOn.length = [(6, connectBytes "alice" 2)] := by
    decide +kernel
  refine peer_name_kept clearSSL quietService (connecting 5 1) secondAlice (by decide +kernel)
    (by decide +kernel) fun raw msg hmem => ?_
  rw [hcalls] at hmem
  have hfd : (5 : Fd) = 6 := congrArg Prod.fst (List.mem_singleton.mp hmem)
  exact absurd hfd (by decide)

end Messenger
