import Mathlib.Data.List.Induction
import Messenger.Lib.Action
import Messenger.Model.ClientLoop
import Messenger.Proof.Flush

/-!
# The life of a client's connection

A connection goes through three phases: the handshake, the time in which messages come, and the
time after. `ClientPhase.next` says what takes it from one to the next, and a client is always in
the phase that the calls so far lead to, unless the callback has disconnected
(`performs_stands`). From this it follows when the client is not connected any more
(`client_loop_ends_iff`) and what is handed on (`client_hands_on`).

The calls are made up to the first that fails, as nothing in the loop or around it catches an
exception. So all that is said of the client after calls is said of calls that have returned, and
which calls fail is said next to it: `perform_breaks` and `perform_silent` for those that read
nothing, `onServerMessage` itself for those that do.

Three things may surprise. A hang-up during the handshake is ignored. What comes together with a
hang-up is not read any more. And a client whose connection has been refused runs its loop too, if
there is a descriptor, and has nothing to send with (`client_refused`).

The proof has one step and two shapes of it. A call that reads nothing is decided by the phase
alone (`perform_silent`), in a table of phases and calls. A call that reads runs the loop over the
buffer, in which the callback may do anything a client can do, so for it only `Stands` is kept: the
phase is as it was, or the callback has closed the connection. Once it has, the phase and the
client go apart, and stay so; this is why the invariant has the condition `CalledOff` in it, and
why the callback is among the reasons for the end of the loop.

What is handed on is proved for callbacks that only send. For them the loop refines
`drainMessages`, and the rest is about packets: the transport forgets an incomplete packet at the
end of an event, so the buffer is empty between two calls.
-/

set_option autoImplicit false

namespace Messenger

open Messenger.Lib

variable {s s' : TransportClient} {fd : Fd} {e : LoopEvent}

/-! ## Phases -/

/-- Where a connection is. -/
inductive ClientPhase
  | handshaking
  | ready
  | closed
  deriving DecidableEq, Repr

/-- The event is one at which the handshake is finished. -/
def LoopEvent.Finishes (fd : Fd) (e : LoopEvent) : Prop :=
  e.fd = fd ∧ (e.readable ∨ e.writable) ∧ e.handshake = .done

instance (fd : Fd) (e : LoopEvent) : Decidable (e.Finishes fd) :=
  inferInstanceAs (Decidable (_ ∧ _ ∧ _))

/-- The event is one at which the handshake fails. -/
def LoopEvent.Spoils (fd : Fd) (e : LoopEvent) : Prop :=
  e.fd = fd ∧ (e.readable ∨ e.writable) ∧ e.handshake = .failed

/-- The call reads from the socket, if the handshake is over. -/
def ClientCall.Reads (fd : Fd) : ClientCall → Prop
  | .runOnce e => e.fd = fd ∧ e.readable = true ∧ e.hangUp = false
  | _ => False

/-- What a call does to the phase. A hang-up counts in the second only, and in the first an event is
    taken for the handshake whatever else it says. -/
def ClientPhase.next (fd : Fd) (phase : ClientPhase) : ClientCall → ClientPhase
  | .act (.sendToServer _ _) => phase
  | .act .disconnect => .closed
  | .runOnce e =>
    match phase with
    | .handshaking => if e.Finishes fd then .ready else .handshaking
    | .ready => if e.fd = fd ∧ e.hangUp then .closed else .ready
    | .closed => .closed

/-- The process lives to see the end of the action. -/
def ClientAction.Survived : ClientAction → Prop
  | .sendToServer _ r => r.isSome = true
  | .disconnect => True

/-- The calls that fail before they have read anything. -/
def ClientCall.Breaks (fd : Fd) (phase : ClientPhase) : ClientCall → Prop
  | .act a => ¬a.Survived
  | .runOnce e => phase = .handshaking ∧ e.Spoils fd

/-- The phase after `connect`. -/
def ClientPhase.first (r : HandshakeResult) : ClientPhase :=
  if r = .done then .ready else .handshaking

def ClientPhase.after (fd : Fd) (phase : ClientPhase) (calls : List ClientCall) :
    ClientPhase := calls.foldl (next fd) phase

/-! ## The client in a phase -/

namespace TransportClient

/-- What has been received and handed on so far. -/
def inbox (s : TransportClient) : Bytes × List Bytes × (List Bytes → ClientDataAnswer) :=
  (s.recvBuffer, s.handedOn, s.onData)

/-- Whom the loop serves, and how. -/
def link (s : TransportClient) :
    Option Fd × Table Fd Unit × Bool × Option ClientTLSWrapper × Bool :=
  (s.socket, s.fdToHandler, s.initialized, s.tlsWrapper, s.transport.isSome)

/-- The client has this socket, and the handshake is or is not over. -/
def Linked (s : TransportClient) (fd : Fd) (done : Bool) : Prop :=
  s.link = (some fd, Table.empty.insert fd (), true, some ⟨done⟩, true)

/-- What the phase is in the client's fields. After the end only the socket and the transport are
    known, and nothing else is looked at. -/
def At (fd : Fd) (s : TransportClient) : ClientPhase → Prop
  | .handshaking => s.Linked fd false
  | .ready => s.Linked fd true
  | .closed => s.socket = none ∧ s.transport.isSome = true

variable {done : Bool}

theorem Linked.socket (h : s.Linked fd done) : s.socket = some fd := congrArg Prod.fst h

theorem Linked.fdToHandler (h : s.Linked fd done) : s.fdToHandler = Table.empty.insert fd () :=
  congrArg (·.2.1) h

theorem Linked.initialized (h : s.Linked fd done) : s.initialized = true := congrArg (·.2.2.1) h

theorem Linked.tlsWrapper (h : s.Linked fd done) : s.tlsWrapper = some ⟨done⟩ :=
  congrArg (·.2.2.2.1) h

theorem Linked.transport (h : s.Linked fd done) : s.transport.isSome = true :=
  congrArg (·.2.2.2.2) h

theorem Linked.of_link (h : s.Linked fd done) (hlink : s'.link = s.link) : s'.Linked fd done :=
  hlink.trans h

/-- Disconnecting returns whether or not there is a socket, and keeps the transport. -/
theorem disconnect_run (s : TransportClient) :
    ∃ s', disconnect s = .ok () s' ∧ s'.socket = none ∧ s'.transport = s.transport ∧
      s'.inbox = s.inbox := by
  unfold disconnect
  rw [get_bind_run]
  cases hsocket : s.socket with
  | none => exact ⟨_, rfl, hsocket, rfl, rfl⟩
  | some fd => exact ⟨_, rfl, rfl, rfl, rfl⟩

/-! ## What the callback does -/

/-- One of the calls of the callback has disconnected. -/
def CalledOff (s : TransportClient) : Prop :=
  ∃ received, received ≠ [] ∧ received <+: s.handedOn ∧ .disconnect ∈ (s.onData received).does

theorem calledOff_congr (h : s'.inbox = s.inbox) : s'.CalledOff ↔ s.CalledOff := by
  unfold CalledOff
  rw [show s'.handedOn = s.handedOn from congrArg (·.2.1) h,
    show s'.onData = s.onData from congrArg (·.2.2) h]

theorem calledOff_concat {received : List Bytes} {msg : Bytes}
    (h : s.handedOn = received ++ [msg]) {s' : TransportClient} (hbefore : s'.handedOn = received)
    (honData : s'.onData = s.onData) :
    s.CalledOff ↔ s'.CalledOff ∨ .disconnect ∈ (s.onData s.handedOn).does := by
  unfold CalledOff
  rw [h, hbefore, honData]
  constructor
  · rintro ⟨p, hp, hpre, hdoes⟩
    rcases List.prefix_concat_iff.mp hpre with rfl | hpre
    · exact .inr hdoes
    · exact .inl ⟨p, hp, hpre, hdoes⟩
  · rintro (⟨p, hp, hpre, hdoes⟩ | hdoes)
    · exact ⟨p, hp, hpre.trans (List.prefix_append _ _), hdoes⟩
    · exact ⟨_, by simp, List.prefix_rfl, hdoes⟩

/-- What actions that return leave of a client, where `disconnects` says whether one of them
    disconnects. The description is the same for the callback, which does a list of them, and for
    the application, which does one at a time. -/
structure Acted (disconnects : Prop) (s s' : TransportClient) : Prop where
  inbox : s'.inbox = s.inbox
  transport : s'.transport = s.transport
  closed : disconnects ∨ s.socket = none → s'.socket = none
  stays : ¬disconnects → s'.link = s.link

theorem sendToServer_writes {transport : StreamTransport} (h : s.transport = some transport)
    (data : Bytes) (r : SendResult) :
    sendToServer data (some r) s = .ok () { s with emitted := s.emitted ++
      (transport.send (FramerMessage.formMessage data []) r).2 } := by
  unfold sendToServer
  rw [get_bind_run, h]
  rfl

theorem sendToServer_killed {transport : StreamTransport} (h : s.transport = some transport)
    (data : Bytes) : sendToServer data none s = .error .killed s := by
  unfold sendToServer
  rw [get_bind_run, h]
  rfl

theorem sendToServer_nowhere (h : s.transport = none) (data : Bytes) (r : Option SendResult) :
    sendToServer data r s = .error nullPointer s := by
  unfold sendToServer
  rw [get_bind_run, h]
  rfl

/-- One action that returns. A write changes nothing but what has been written. -/
theorem act_acted {a : ClientAction} (h : act a s = .ok () s') : Acted (a = .disconnect) s s' := by
  cases a with
  | disconnect =>
    obtain ⟨t, hrun, hsocket, htransport, hinbox⟩ := disconnect_run s
    obtain ⟨-, rfl⟩ := EStateM.Result.ok.inj (hrun.symm.trans h)
    exact ⟨hinbox, htransport, fun _ => hsocket, fun hstays => absurd rfl hstays⟩
  | sendToServer data r =>
    have hsend : sendToServer data r s = .ok () s' := h
    cases htransport : s.transport with
    | none =>
      rw [sendToServer_nowhere htransport] at hsend
      cases hsend
    | some transport =>
      cases r with
      | none =>
        rw [sendToServer_killed htransport] at hsend
        cases hsend
      | some r =>
        rw [sendToServer_writes htransport] at hsend
        cases hsend
        refine ⟨rfl, rfl, ?_, fun _ => rfl⟩
        rintro (ha | hsocket)
        · cases ha
        · exact hsocket

/-- Actions one after the other, by induction on the list: one that disconnects is enough. -/
theorem forM_act_acted {actions : List ClientAction} (h : actions.forM act s = .ok () s') :
    Acted (.disconnect ∈ actions) s s' := by
  induction actions generalizing s with
  | nil =>
    cases h
    exact ⟨rfl, rfl, fun h => h.elim (fun hmem => by cases hmem) id, fun _ => rfl⟩
  | cons a actions ih =>
    obtain ⟨⟨⟩, s₁, hfirst, hrest⟩ :=
      bind_eq_ok (show (act a >>= fun _ => actions.forM act) s = _ from h)
    have hacted₁ := act_acted hfirst
    have hacted₂ := ih hrest
    refine ⟨hacted₂.inbox.trans hacted₁.inbox, hacted₂.transport.trans hacted₁.transport,
      fun hclosed => hacted₂.closed ?_, fun hstays => ?_⟩
    · rcases hclosed with hmem | hsocket
      · rcases List.mem_cons.mp hmem with ha | hmem
        · exact .inr (hacted₁.closed (.inl ha.symm))
        · exact .inl hmem
      · exact .inr (hacted₁.closed (.inr hsocket))
    · rw [List.mem_cons, not_or] at hstays
      exact (hacted₂.stays hstays.2).trans (hacted₁.stays fun ha => hstays.1 ha.symm)

theorem act_returns (h : s.transport.isSome = true) {a : ClientAction} (ha : a.Survived) :
    ∃ s', act a s = .ok () s' := by
  cases a with
  | disconnect =>
    obtain ⟨s', hrun, -⟩ := disconnect_run s
    exact ⟨s', hrun⟩
  | sendToServer data r =>
    obtain ⟨transport, htransport⟩ := Option.isSome_iff_exists.mp h
    obtain ⟨r, rfl⟩ := Option.isSome_iff_exists.mp ha
    exact ⟨_, sendToServer_writes htransport data r⟩

theorem forM_act_returns (h : s.transport.isSome = true) {actions : List ClientAction}
    (hall : ∀ a ∈ actions, a.Survived) : ∃ s', actions.forM act s = .ok () s' := by
  induction actions generalizing s with
  | nil => exact ⟨s, rfl⟩
  | cons a actions ih =>
    obtain ⟨s₁, hfirst⟩ := act_returns h (hall a List.mem_cons_self)
    obtain ⟨s', hrest⟩ := ih ((act_acted hfirst).transport ▸ h) fun b hb =>
      hall b (List.mem_cons_of_mem a hb)
    exact ⟨s', (bind_ok hfirst).trans hrest⟩

/-- The client is in the phase, unless the callback has disconnected. Then it is closed, also if the
    calls alone would not have closed it. -/
structure Stands (fd : Fd) (phase : ClientPhase) (s : TransportClient) : Prop where
  closed : s.CalledOff → s.At fd .closed
  stays : ¬s.CalledOff → s.At fd phase

theorem At.transport {phase : ClientPhase} (h : s.At fd phase) : s.transport.isSome = true := by
  cases phase with
  | closed => exact h.2
  | handshaking => exact Linked.transport h
  | ready => exact Linked.transport h

theorem Stands.transport {phase : ClientPhase} (h : s.Stands fd phase) :
    s.transport.isSome = true := by
  by_cases hoff : s.CalledOff
  · exact (h.closed hoff).transport
  · exact (h.stays hoff).transport

/-- **One message**: the callback may disconnect, and changes nothing else about the link. -/
theorem Stands.received (h : s.Stands fd .ready) (msg rest : Bytes) {s' : TransportClient}
    (hacted : Acted (.disconnect ∈ (s.onData (s.handedOn ++ [msg])).does)
      { s with recvBuffer := rest, handedOn := s.handedOn ++ [msg] } s') :
    s'.Stands fd .ready := by
  have hoff : s'.CalledOff ↔ s.CalledOff ∨ .disconnect ∈ (s.onData (s.handedOn ++ [msg])).does :=
    (calledOff_congr hacted.inbox).trans (calledOff_concat rfl rfl rfl)
  constructor
  · intro hcalled
    refine ⟨hacted.closed ?_, hacted.transport ▸ h.transport⟩
    rcases hoff.mp hcalled with hbefore | hdoes
    · exact .inr (h.closed hbefore).1
    · exact .inl hdoes
  · intro hcalled
    rw [hoff, not_or] at hcalled
    exact Linked.of_link (h.stays hcalled.1) (hacted.stays hcalled.2)

/-- The loop over the buffer. Each turn hands one message on and lets the callback act, so what
    `Stands.received` says of one message is the step; a turn that throws is none. -/
theorem handleMessages_stands {turns : Nat} (h : s.Stands fd .ready)
    (hrun : handleMessages turns s = .ok () s') : s'.Stands fd .ready := by
  induction turns generalizing s with
  | zero =>
    cases hrun
    exact h
  | succ turns ih =>
    unfold handleMessages at hrun
    rw [get_bind_run] at hrun
    by_cases hhas : FramerMessage.hasMessageInBuffer s.recvBuffer = true
    · rw [if_pos hhas] at hrun
      cases hextract : FramerMessage.extractMessage s.recvBuffer with
      | error x =>
        rw [hextract] at hrun
        cases hrun
      | ok taken =>
        rw [hextract] at hrun
        obtain ⟨⟨⟩, s₁, hset, hrun⟩ := bind_eq_ok hrun
        cases hset
        obtain ⟨⟨⟩, s₂, hdoes, hrun⟩ := bind_eq_ok hrun
        have hstands := h.received taken.1 taken.2 (forM_act_acted hdoes)
        cases hfailure : (s.onData (s.handedOn ++ [taken.1])).failure with
        | some x =>
          rw [hfailure] at hrun
          cases hrun
        | none =>
          rw [hfailure] at hrun
          exact ih hstands hrun
    · rw [if_neg hhas] at hrun
      cases hrun
      exact h

/-- What an event brings is handled in the second phase, and leaves the client there, or closed by
    the callback. -/
theorem onServerMessage_stands {net : List RecvResult} (h : s.Stands fd .ready)
    (hrun : onServerMessage net s = .ok () s') : s'.Stands fd .ready := by
  obtain ⟨transport, htransport⟩ := Option.isSome_iff_exists.mp h.transport
  -- the transport and the buffer are not looked at
  have hstands (transport : StreamTransport) (buffer : Bytes) :
      { s with transport := some transport, recvBuffer := buffer }.Stands fd .ready := by
    refine ⟨fun hoff => ⟨(h.closed hoff).1, rfl⟩, fun hoff => ?_⟩
    refine Linked.of_link (h.stays hoff) ?_
    unfold link
    rw [htransport]
    rfl
  unfold onServerMessage at hrun
  rw [get_bind_run, htransport] at hrun
  dsimp only at hrun
  generalize transport.receive net = received at hrun
  obtain ⟨⟨⟨status, data, code⟩, left, net⟩, after⟩ := received
  cases status with
  | ok =>
    obtain ⟨⟨⟩, s₁, hset, hrun⟩ := bind_eq_ok hrun
    cases hset
    exact handleMessages_stands (hstands _ _) hrun
  | _ =>
    cases hrun
    exact hstands _ s.recvBuffer

/-! ## One call -/

/-- The loop knows one descriptor, and hands its events to the handler. -/
theorem runOnce_linked (h : s.Linked fd done) (he : e.fd = fd) : runOnce e s = handleEvent e s := by
  unfold runOnce
  rw [get_bind_run, if_pos (by simp [isConnected, h.socket]), h.fdToHandler, he, Table.insert_self]

theorem runOnce_other (h : s.Linked fd done) (he : e.fd ≠ fd) : runOnce e s = .ok () s := by
  unfold runOnce
  rw [get_bind_run, if_pos (by simp [isConnected, h.socket]), h.fdToHandler,
    Table.insert_of_ne he]
  rfl

theorem runOnce_closed (h : s.socket = none) (e : LoopEvent) : runOnce e s = .ok () s := by
  unfold runOnce
  rw [get_bind_run, if_neg (by simp [isConnected, h])]
  rfl

/-- During the handshake an event is an attempt at it, or nothing. -/
theorem handleEvent_handshaking (h : s.Linked fd false) (e : LoopEvent) :
    handleEvent e s = if (e.readable ∨ e.writable) ∧ e.handshake = .failed then
        .error (runtimeError "TLS SSL accept error") s
      else if (e.readable ∨ e.writable) ∧ e.handshake = .done then
        .ok () { s with tlsWrapper := some ⟨true⟩ }
      else .ok () s := by
  have hsame : { s with tlsWrapper := some ⟨false⟩ } = s := by
    rw [← h.tlsWrapper]
  unfold handleEvent
  rw [get_bind_run, if_neg (by simp [h.initialized]), h.tlsWrapper]
  dsimp only
  rw [if_pos (by rfl)]
  by_cases hmask : e.readable ∨ e.writable
  · rw [if_pos hmask]
    cases hhandshake : e.handshake with
    | done =>
      rw [if_neg (by simp), if_pos ⟨hmask, rfl⟩]
      rfl
    | wouldBlock =>
      rw [if_neg (by simp), if_neg (by simp)]
      exact congrArg (EStateM.Result.ok ()) hsame
    | failed =>
      rw [if_pos ⟨hmask, rfl⟩]
      rfl
  · rw [if_neg hmask, if_neg fun hfails => hmask hfails.1, if_neg fun hdone => hmask hdone.1]
    rfl

/-- After the handshake a hang-up comes first, and what comes with it is not read. -/
theorem handleEvent_ready (h : s.Linked fd true) (e : LoopEvent) :
    handleEvent e s = (if e.hangUp then disconnect
      else if e.readable then onServerMessage e.net else pure ()) s := by
  unfold handleEvent
  rw [get_bind_run, if_neg (by simp [h.initialized]), h.tlsWrapper]
  rfl

theorem act_silent {phase : ClientPhase} (h : s.At fd phase) {a : ClientAction} (ha : a.Survived) :
    ∃ s', act a s = .ok () s' ∧ s'.At fd (phase.next fd (.act a)) ∧ s'.inbox = s.inbox := by
  obtain ⟨s', hrun⟩ := act_returns h.transport ha
  have hacted := act_acted hrun
  refine ⟨s', hrun, ?_, hacted.inbox⟩
  cases a with
  | disconnect => exact ⟨hacted.closed (.inl rfl), hacted.transport ▸ h.transport⟩
  | sendToServer data r =>
    have hlink : s'.link = s.link := hacted.stays (by simp)
    cases phase with
    | handshaking => exact Linked.of_link h hlink
    | ready => exact Linked.of_link h hlink
    | closed => exact ⟨hacted.closed (.inr h.1), hacted.transport ▸ h.2⟩

/-- A turn of the loop during the handshake: another descriptor, an attempt that finishes it, or one
    that does not. -/
theorem handshaking_silent (h : s.At fd .handshaking) (hspoils : ¬e.Spoils fd) :
    ∃ s', runOnce e s = .ok () s' ∧
      s'.At fd (ClientPhase.next fd .handshaking (.runOnce e)) ∧ s'.inbox = s.inbox := by
  unfold ClientPhase.next
  dsimp only
  by_cases he : e.fd = fd
  · rw [runOnce_linked h he, handleEvent_handshaking h e,
      if_neg fun hfails => hspoils ⟨he, hfails⟩]
    by_cases hdone : (e.readable ∨ e.writable) ∧ e.handshake = .done
    · rw [if_pos hdone, if_pos (show e.Finishes fd from ⟨he, hdone⟩)]
      refine ⟨_, rfl, ?_, rfl⟩
      show Linked _ fd true
      unfold Linked link
      rw [Linked.socket h, Linked.fdToHandler h, Linked.initialized h, Linked.transport h]
    · rw [if_neg hdone, if_neg fun hfinishes : e.Finishes fd => hdone hfinishes.2]
      exact ⟨s, rfl, h, rfl⟩
  · rw [runOnce_other h he, if_neg fun hfinishes : e.Finishes fd => he hfinishes.1]
    exact ⟨s, rfl, h, rfl⟩

/-- A turn of the loop after the handshake that reads nothing: another descriptor, a hang-up, or an
    event with nothing to read. -/
theorem ready_silent (h : s.At fd .ready) (hreads : ¬ClientCall.Reads fd (.runOnce e)) :
    ∃ s', runOnce e s = .ok () s' ∧ s'.At fd (ClientPhase.next fd .ready (.runOnce e)) ∧
      s'.inbox = s.inbox := by
  unfold ClientPhase.next
  dsimp only
  by_cases he : e.fd = fd
  · rw [runOnce_linked h he, handleEvent_ready h e]
    cases hhang : e.hangUp with
    | true =>
      obtain ⟨s', hrun, hsocket, htransport, hinbox⟩ := disconnect_run s
      rw [if_pos rfl, if_pos ⟨he, rfl⟩]
      exact ⟨s', hrun, ⟨hsocket, htransport ▸ Linked.transport h⟩, hinbox⟩
    | false =>
      have hread : ¬e.readable = true := fun hread => hreads ⟨he, hread, hhang⟩
      have hstays : ¬(e.fd = fd ∧ false = true) := by simp
      rw [if_neg (by simp : ¬false = true), if_neg hread, if_neg hstays]
      exact ⟨s, rfl, h, rfl⟩
  · rw [runOnce_other h he, if_neg fun hangUp => he hangUp.1]
    exact ⟨s, rfl, h, rfl⟩

/-- **A call that reads nothing** returns, unless it is one of those that `perform_breaks` is
    about. The client stays in its phase or goes on to the next, and nothing is handed on. -/
theorem perform_silent {phase : ClientPhase} (h : s.At fd phase) {call : ClientCall}
    (hcall : ¬(phase = .ready ∧ call.Reads fd)) (hbreaks : ¬call.Breaks fd phase) :
    ∃ s', call.perform s = .ok () s' ∧ s'.At fd (phase.next fd call) ∧ s'.inbox = s.inbox := by
  cases call with
  | act a => exact act_silent h (not_not.mp hbreaks)
  | runOnce e =>
    cases phase with
    | closed => exact ⟨s, runOnce_closed h.1 e, h, rfl⟩
    | handshaking => exact handshaking_silent h fun hspoils => hbreaks ⟨rfl, hspoils⟩
    | ready => exact ready_silent h fun hreads => hcall ⟨rfl, hreads⟩

theorem perform_reads (h : s.At fd .ready) (hreads : ClientCall.Reads fd (.runOnce e)) :
    (ClientCall.runOnce e).perform s = onServerMessage e.net s := by
  obtain ⟨he, hread, hhang⟩ := hreads
  refine (runOnce_linked h he).trans ((handleEvent_ready h e).trans ?_)
  rw [hhang, if_neg (by simp), if_pos hread]

theorem tcpClient_inbox (answer : ConnectAnswer) (onData : List Bytes → ClientDataAnswer) :
    (tcpClient answer onData).inbox = ([], [], onData) := by
  cases answer with
  | failed fd => rfl
  | connected fd r => cases r <;> rfl

/-- After `connect` the client is in the first phase, or in the second if the handshake was done at
    once. -/
theorem tcpClient_stands (fd : Fd) {r : HandshakeResult} (hr : r ≠ .failed)
    (onData : List Bytes → ClientDataAnswer) :
    (tcpClient (.connected fd r) onData).Stands fd (.first r) := by
  have hnothing : (tcpClient (.connected fd r) onData).handedOn = [] :=
    congrArg (·.2.1) (tcpClient_inbox _ onData)
  constructor
  · rintro ⟨received, hne, hpre, -⟩
    rw [hnothing] at hpre
    exact absurd (List.prefix_nil.mp hpre) hne
  · intro _
    cases r with
    | done => rfl
    | wouldBlock => rfl
    | failed => exact absurd rfl hr

theorem At.isConnected {phase : ClientPhase} (h : s.At fd phase) :
    s.isConnected = decide (phase ≠ .closed) := by
  unfold TransportClient.isConnected
  cases phase with
  | closed => rw [h.1]; rfl
  | handshaking => rw [Linked.socket h]; rfl
  | ready => rw [Linked.socket h]; rfl

/-! ## What is handed on -/

/-- The callback does nothing but send, lives to see the end of what it sends, and never throws. -/
def Calm (onData : List Bytes → ClientDataAnswer) : Prop :=
  ∀ received, (∀ a ∈ (onData received).does, a.Survived ∧ a ≠ .disconnect) ∧
    (onData received).failure = none

theorem Calm.not_calledOff (h : Calm s.onData) : ¬s.CalledOff := fun ⟨received, _, _, hdoes⟩ =>
  ((h received).1 _ hdoes).2 rfl

/-- The loop hands on what `drainMessages` takes off the buffer. The two recurse in the same way,
    one on the turns and one on the buffer; every message takes off at least its header, so the
    turns are enough. -/
theorem handleMessages_of_drain {turns : Nat} {msgs : List Bytes} {rest : Bytes}
    (hdrain : drainMessages s.recvBuffer = .ok (msgs, rest)) (hturns : s.recvBuffer.length < turns)
    (hcalm : Calm s.onData) (htransport : s.transport.isSome = true) :
    ∃ s', handleMessages turns s = .ok () s' ∧ s'.transport = s.transport ∧
      s'.inbox = (rest, s.handedOn ++ msgs, s.onData) := by
  induction turns generalizing s msgs with
  | zero => omega
  | succ turns ih =>
    unfold handleMessages
    rw [get_bind_run]
    rw [drainMessages] at hdrain
    by_cases hhas : FramerMessage.hasMessageInBuffer s.recvBuffer = true
    · rw [if_pos hhas] at hdrain ⊢
      split at hdrain
      · cases hdrain
      · rename_i msg left hextract
        let taken : TransportClient :=
          { s with recvBuffer := left, handedOn := s.handedOn ++ [msg] }
        obtain ⟨s₁, hdoes⟩ : ∃ s₁, (s.onData (s.handedOn ++ [msg])).does.forM act taken
            = .ok () s₁ :=
          forM_act_returns (s := taken) htransport fun a ha => ((hcalm _).1 a ha).1
        have hacted := forM_act_acted hdoes
        have hbuffer : s₁.recvBuffer = left := congrArg Prod.fst hacted.inbox
        have hhanded : s₁.handedOn = s.handedOn ++ [msg] := congrArg (·.2.1) hacted.inbox
        have honData : s₁.onData = s.onData := congrArg (·.2.2) hacted.inbox
        obtain ⟨msgs', hleft, rfl⟩ : ∃ msgs', drainMessages left = .ok (msgs', rest) ∧
            msgs = msg :: msgs' := by
          cases hleft : drainMessages left with
          | error x =>
            rw [hleft] at hdrain
            cases hdrain
          | ok r =>
            rw [hleft] at hdrain
            cases hdrain
            exact ⟨r.1, rfl, rfl⟩
        obtain ⟨s', hrun, htransport', hinbox⟩ := ih (s := s₁) (hbuffer.symm ▸ hleft)
          (by have := extractMessage_shrinks hextract; rw [hbuffer]; omega)
          (honData.symm ▸ hcalm) (hacted.transport ▸ htransport)
        refine ⟨s', ?_, htransport'.trans hacted.transport, ?_⟩
        · have hset : (set taken : TransportClientM PUnit) s = .ok ⟨⟩ taken := rfl
          rw [hextract]
          dsimp only
          rw [bind_ok hset, bind_ok hdoes, (hcalm _).2]
          exact hrun
        · rw [hinbox, hhanded, honData, List.append_assoc]
          rfl
    · rw [if_neg hhas] at hdrain ⊢
      cases hdrain
      refine ⟨s, rfl, rfl, ?_⟩
      rw [List.append_nil]
      rfl

/-- **With such a callback a call comes to what `Client.onServerMessage` says.** So what is known of
    that function, which has no callback, holds here. -/
theorem onServerMessage_refines {net net' : List RecvResult} {transport : StreamTransport}
    {msgs : List Bytes} {c : Client} (hcalm : Calm s.onData)
    (htransport : s.transport = some transport)
    (h : Client.onServerMessage ⟨transport, s.recvBuffer⟩ net = .ok (msgs, c, net')) :
    ∃ s', onServerMessage net s = .ok () s' ∧ s'.transport = some c.transport ∧
      s'.inbox = (c.recvBuffer, s.handedOn ++ msgs, s.onData) := by
  unfold Client.onServerMessage at h
  unfold onServerMessage
  rw [get_bind_run, htransport]
  dsimp only at h ⊢
  generalize transport.receive net = received at h ⊢
  obtain ⟨call, after⟩ := received
  dsimp only at h ⊢
  split at h
  · rename_i hstatus
    rw [hstatus]
    cases hdrain : drainMessages (s.recvBuffer ++ call.result.data) with
    | error x =>
      rw [hdrain] at h
      cases h
    | ok r =>
      rw [hdrain] at h
      cases h
      exact handleMessages_of_drain (s := { s with
        transport := some after, recvBuffer := s.recvBuffer ++ call.result.data }) hdrain
        (Nat.lt_succ_self _) hcalm rfl
  · rename_i hstatus
    cases h
    refine ⟨{ s with transport := some after }, ?_, rfl, ?_⟩
    · generalize call.result.status = status at hstatus
      cases status with
      | ok => exact absurd rfl hstatus
      | _ => rfl
    · rw [List.append_nil]
      rfl

/-- What the reads of an event bring. The transport keeps nothing from one event to the next and
    takes one packet at a time, so there are two cases.

    In the first the reads complete a packet, with these messages, cut in any way. What the read
    that completes it has brought beyond it is lost; what the socket has after that is for later.
    In the second they come to an end before a packet is complete, because nothing more is there
    for now, or for good, or because of an error: what they have brought is lost. This is also the
    case in which they bring nothing, as with the tickets that TLS sends after the handshake. -/
inductive Brings : List RecvResult → List Bytes → Prop
  | packet {chunks : List Chunk} {last : Chunk} {net : List RecvResult} {msgs : List Bytes}
      {lost : Bytes} (hsize : (msgs.flatMap frame).length < 2 ^ 32)
      (hmsgs : ∀ m ∈ msgs, m.length < 2 ^ 32 - 4)
      (hshort : (chunks.flatMap Chunk.bytes).length < (frame (msgs.flatMap frame)).length)
      (hcut : chunks.flatMap Chunk.bytes ++ last.bytes = frame (msgs.flatMap frame) ++ lost) :
      Brings (chunks.map .data ++ .data last :: net) msgs
  | part {chunks : List Chunk} {net : List RecvResult} {packet : Bytes}
      (hsize : packet.length < 2 ^ 32) (hpart : chunks.flatMap Chunk.bytes <+: frame packet)
      (hne : chunks.flatMap Chunk.bytes ≠ frame packet)
      (hstop : ∀ chunk, net.head? ≠ some (.data chunk)) : Brings (chunks.map .data ++ net) []

/-- Something comes while nothing is left in the buffer: if it is a packet, all of it is handed
    on. -/
theorem onServerMessage_brings {net : List RecvResult} {msgs : List Bytes} (hcalm : Calm s.onData)
    (hbuffer : s.recvBuffer = []) (htransport : s.transport.isSome = true)
    (hbrings : Brings net msgs) :
    ∃ s', onServerMessage net s = .ok () s' ∧ s'.inbox = ([], s.handedOn ++ msgs, s.onData) := by
  obtain ⟨transport, htransport⟩ := Option.isSome_iff_exists.mp htransport
  cases hbrings with
  | packet hsize hmsgs hshort hcut =>
    have hdrain : drainMessages (s.recvBuffer ++ msgs.flatMap frame) = .ok (msgs, []) := by
      rw [hbuffer]
      exact drainMessages_stream hmsgs
    obtain ⟨c, hcall, hleft⟩ := Client.onServerMessage_received ⟨transport, s.recvBuffer⟩
      (receiveLoop_completes hsize _ hshort hcut) hdrain
    obtain ⟨s', hrun, -, hinbox⟩ := onServerMessage_refines hcalm htransport hcall
    exact ⟨s', hrun, by rw [hinbox, hleft]⟩
  | part hsize hpart hne hstop =>
    obtain ⟨c, net', hcall, hleft⟩ := Client.onServerMessage_nothing ⟨transport, s.recvBuffer⟩
      (receiveLoop_short hsize hstop hpart hne)
    obtain ⟨s', hrun, -, hinbox⟩ := onServerMessage_refines hcalm htransport hcall
    refine ⟨s', hrun, ?_⟩
    rw [hinbox, hleft, hbuffer]

end TransportClient

open TransportClient

/-- A connection from a phase on: the calls, none of which fails, and the messages of the packets
    that are completed while the connection is ready. -/
inductive ClientSession (fd : Fd) : ClientPhase → List ClientCall → List Bytes → Prop
  | nil {phase : ClientPhase} : ClientSession fd phase [] []
  | read {e : LoopEvent} {brought msgs : List Bytes} {calls : List ClientCall}
      (hreads : ClientCall.Reads fd (.runOnce e)) (hbrings : Brings e.net brought)
      (hrest : ClientSession fd .ready calls msgs) :
      ClientSession fd .ready (.runOnce e :: calls) (brought ++ msgs)
  | other {phase : ClientPhase} {call : ClientCall} {calls : List ClientCall} {msgs : List Bytes}
      (hcall : ¬(phase = .ready ∧ call.Reads fd)) (hreturns : ¬call.Breaks fd phase)
      (hrest : ClientSession fd (phase.next fd call) calls msgs) :
      ClientSession fd phase (call :: calls) msgs

/-- The buffer is empty between the calls, since every packet is made of whole messages; this is
    what carries the induction. -/
theorem ClientSession.handedOn {phase : ClientPhase} {calls : List ClientCall} {msgs : List Bytes}
    (hsession : ClientSession fd phase calls msgs) (h : s.At fd phase) (hcalm : Calm s.onData)
    (hbuffer : s.recvBuffer = []) :
    ∃ s', performs calls s = .ok () s' ∧ s'.handedOn = s.handedOn ++ msgs := by
  induction hsession generalizing s with
  | nil => exact ⟨s, rfl, (List.append_nil _).symm⟩
  | @read e brought msgs calls hreads hbrings _ ih =>
    obtain ⟨s₁, hrun, hinbox⟩ := onServerMessage_brings hcalm hbuffer h.transport hbrings
    have hcalm₁ : Calm s₁.onData := (congrArg (·.2.2) hinbox : s₁.onData = s.onData) ▸ hcalm
    have hstands : s.Stands fd .ready :=
      ⟨fun hcalled => absurd hcalled hcalm.not_calledOff, fun _ => h⟩
    have hafter := (onServerMessage_stands hstands hrun).stays hcalm₁.not_calledOff
    obtain ⟨s', hrest, hhanded⟩ := ih hafter hcalm₁ (congrArg Prod.fst hinbox)
    refine ⟨s', (bind_ok ((perform_reads h hreads).trans hrun)).trans hrest, ?_⟩
    rw [hhanded, show s₁.handedOn = s.handedOn ++ brought from congrArg (·.2.1) hinbox,
      List.append_assoc]
  | @other phase call calls msgs hcall hreturns _ ih =>
    obtain ⟨s₁, hrun, hafter, hinbox⟩ := perform_silent h hcall hreturns
    have hcalm₁ : Calm s₁.onData := (congrArg (·.2.2) hinbox : s₁.onData = s.onData) ▸ hcalm
    obtain ⟨s', hrest, hhanded⟩ := ih hafter hcalm₁ ((congrArg Prod.fst hinbox).trans hbuffer)
    refine ⟨s', (bind_ok hrun).trans hrest, ?_⟩
    rw [hhanded, show s₁.handedOn = s.handedOn from congrArg (·.2.1) hinbox]

/-- **What a client hands on**, if its callback only sends and nothing fails: the messages of the
    packets that are completed by the reads of an event after the handshake, one packet at an event
    at most, in order, up to the hang-up or the call of `disconnect`. What a read brings beyond its
    packet, what is there of a packet when the reads of an event end, and what comes with the
    hang-up are lost. -/
theorem client_hands_on {r : HandshakeResult} (hr : r ≠ .failed)
    {onData : List Bytes → ClientDataAnswer} (hcalm : Calm onData)
    {calls : List ClientCall} {msgs : List Bytes} (h : ClientSession fd (.first r) calls msgs) :
    ∃ s, performs calls (tcpClient (.connected fd r) onData) = .ok () s ∧ s.handedOn = msgs := by
  have hinbox := tcpClient_inbox (.connected fd r) onData
  have hcalm' : Calm (tcpClient (.connected fd r) onData).onData := by
    rw [show (tcpClient (.connected fd r) onData).onData = onData from congrArg (·.2.2) hinbox]
    exact hcalm
  have hat := (tcpClient_stands fd hr onData).stays hcalm'.not_calledOff
  obtain ⟨s, hrun, hhanded⟩ := h.handedOn hat hcalm' (congrArg Prod.fst hinbox)
  refine ⟨s, hrun, ?_⟩
  rw [hhanded, show (tcpClient (.connected fd r) onData).handedOn = [] from
    congrArg (·.2.1) hinbox, List.nil_append]

/-- The handshake, the tickets of the server, the first half of a packet, and one that is whole
    with the first byte of the next behind it. -/
def hiAtLast : List ClientCall :=
  [.runOnce { fd := 5, readable := true, handshake := .done },
    .runOnce { fd := 5, readable := true, net := [.wouldBlock] },
    .runOnce { fd := 5, readable := true, net := [.data ⟨bytes "\x00\x00\x00\x06\x00\x00\x00\x02h",
      by decide, by decide⟩, .wouldBlock] },
    .runOnce { fd := 5, readable := true, net := [.data ⟨frame (frame (bytes "hi")) ++ [0],
      by decide, by decide⟩] }]

theorem client_hands_on_hi :
    ∃ s, performs hiAtLast (tcpClient (.connected 5 .wouldBlock) fun _ => {}) = .ok () s ∧
      s.handedOn = [bytes "hi"] := by
  have hnothing : Brings [.wouldBlock] [] :=
    @Brings.part [] [.wouldBlock] [] (by decide) List.nil_prefix (by decide) (by simp)
  have hhalf : Brings [.data ⟨bytes "\x00\x00\x00\x06\x00\x00\x00\x02h", by decide, by decide⟩,
      .wouldBlock] [] :=
    @Brings.part [⟨bytes "\x00\x00\x00\x06\x00\x00\x00\x02h", by decide, by decide⟩] [.wouldBlock]
      (frame (bytes "hi")) (by decide) (by decide) (by decide) (by simp)
  have hwhole : Brings [.data ⟨frame (frame (bytes "hi")) ++ [0], by decide, by decide⟩]
      [bytes "hi"] :=
    @Brings.packet [] _ [] [bytes "hi"] [0] (by decide) (by decide) (by decide) rfl
  refine client_hands_on (by decide) (fun _ => ⟨by simp, rfl⟩)
    (.other (fun h => absurd h.1 (by decide)) (fun h => absurd h.2.2.2 (by decide)) ?_)
  show ClientSession 5 .ready _ ([] ++ ([] ++ ([bytes "hi"] ++ [])))
  exact .read ⟨rfl, rfl, rfl⟩ hnothing (.read ⟨rfl, rfl, rfl⟩ hhalf
    (.read ⟨rfl, rfl, rfl⟩ hwhole .nil))

/-! ## When the loop ends -/

/-- The handshake is over, at once or because of one of these calls. -/
def Handshaken (fd : Fd) (r : HandshakeResult) (calls : List ClientCall) : Prop :=
  r = .done ∨ ∃ e, .runOnce e ∈ calls ∧ e.Finishes fd

/-- A call that ends a connection on which there have been these. -/
def Closes (fd : Fd) (r : HandshakeResult) (before : List ClientCall) (call : ClientCall) : Prop :=
  call = .act .disconnect ∨
    ∃ e, call = .runOnce e ∧ e.fd = fd ∧ e.hangUp = true ∧ Handshaken fd r before

/-- One of the calls ends the connection. -/
def Ended (fd : Fd) (r : HandshakeResult) (calls : List ClientCall) : Prop :=
  ∃ before call rest, calls = before ++ call :: rest ∧ Closes fd r before call

section

variable {r : HandshakeResult} {calls : List ClientCall} {call : ClientCall}

/-- One more call finishes the handshake, or it was finished before, or not at all. -/
theorem handshaken_concat : Handshaken fd r (calls ++ [call]) ↔
    Handshaken fd r calls ∨ ∃ e, call = .runOnce e ∧ e.Finishes fd := by
  constructor
  · rintro (hr | ⟨e, hmem, hfinishes⟩)
    · exact .inl (.inl hr)
    · rcases List.mem_append.mp hmem with hold | hnew
      · exact .inl (.inr ⟨e, hold, hfinishes⟩)
      · exact .inr ⟨e, (List.mem_singleton.mp hnew).symm, hfinishes⟩
  · rintro ((hr | ⟨e, hmem, hfinishes⟩) | ⟨e, rfl, hfinishes⟩)
    · exact .inl hr
    · exact .inr ⟨e, List.mem_append_left _ hmem, hfinishes⟩
    · exact .inr ⟨e, List.mem_append_right _ (List.mem_singleton_self _), hfinishes⟩

theorem ended_concat :
    Ended fd r (calls ++ [call]) ↔ Ended fd r calls ∨ Closes fd r calls call := by
  constructor
  · rintro ⟨before, c, rest, hcalls, hcloses⟩
    rcases List.eq_nil_or_concat rest with rfl | ⟨rest, last, rfl⟩
    · obtain ⟨rfl, hlast⟩ := List.append_inj' hcalls rfl
      cases hlast
      exact .inr hcloses
    · rw [List.concat_eq_append, ← List.cons_append, ← List.append_assoc] at hcalls
      exact .inl ⟨before, c, rest, (List.append_inj' hcalls rfl).1, hcloses⟩
  · rintro (⟨before, c, rest, rfl, hcloses⟩ | hcloses)
    · exact ⟨before, c, rest ++ [call], by simp, hcloses⟩
    · exact ⟨calls, call, [], rfl, hcloses⟩

/-- What the phase says about the calls. -/
def ClientPhase.Means (fd : Fd) (r : HandshakeResult) (calls : List ClientCall) : ClientPhase → Prop
  | .closed => Ended fd r calls
  | .ready => ¬Ended fd r calls ∧ Handshaken fd r calls
  | .handshaking => ¬Ended fd r calls ∧ ¬Handshaken fd r calls

theorem act_means {phase : ClientPhase} (h : phase.Means fd r calls) (a : ClientAction) :
    (phase.next fd (.act a)).Means fd r (calls ++ [.act a]) := by
  have hfinishes : ¬∃ e, ClientCall.act a = .runOnce e ∧ e.Finishes fd := by
    rintro ⟨e, hcall, -⟩
    cases hcall
  cases a with
  | disconnect => exact ended_concat.mpr (.inr (.inl rfl))
  | sendToServer data result =>
    have hcloses : ¬Closes fd r calls (.act (.sendToServer data result)) := by
      rintro (hcall | ⟨e, hcall, -⟩) <;> cases hcall
    cases phase with
    | closed => exact ended_concat.mpr (.inl h)
    | ready => exact ⟨fun hended => (ended_concat.mp hended).elim h.1 hcloses,
        handshaken_concat.mpr (.inl h.2)⟩
    | handshaking => exact ⟨fun hended => (ended_concat.mp hended).elim h.1 hcloses,
        fun hdone => (handshaken_concat.mp hdone).elim h.2 hfinishes⟩

theorem closes_runOnce_iff : Closes fd r calls (.runOnce e) ↔
    e.fd = fd ∧ e.hangUp = true ∧ Handshaken fd r calls := by
  constructor
  · rintro (hcall | ⟨e', hcall, hcloses⟩)
    · cases hcall
    · cases hcall
      exact hcloses
  · exact fun hcloses => .inr ⟨e, rfl, hcloses⟩

/-- The phase keeps its meaning in a turn of the loop. A hang-up before the end of the handshake is
    the case in which `Ended` looks at the calls before it. -/
theorem runOnce_means {phase : ClientPhase} (h : phase.Means fd r calls) (e : LoopEvent) :
    (phase.next fd (.runOnce e)).Means fd r (calls ++ [.runOnce e]) := by
  unfold ClientPhase.next
  cases phase with
  | closed => exact ended_concat.mpr (.inl h)
  | ready =>
    dsimp only
    split
    · rename_i hhang
      exact ended_concat.mpr (.inr (closes_runOnce_iff.mpr ⟨hhang.1, hhang.2, h.2⟩))
    · rename_i hstays
      refine ⟨fun hended => (ended_concat.mp hended).elim h.1 fun hhang => ?_,
        handshaken_concat.mpr (.inl h.2)⟩
      obtain ⟨he, hhang, -⟩ := closes_runOnce_iff.mp hhang
      exact hstays ⟨he, hhang⟩
  | handshaking =>
    have hended : ¬Ended fd r (calls ++ [.runOnce e]) := fun hended =>
      (ended_concat.mp hended).elim h.1 fun hhang => h.2 (closes_runOnce_iff.mp hhang).2.2
    dsimp only
    split
    · rename_i hfinishes
      exact ⟨hended, handshaken_concat.mpr (.inr ⟨e, rfl, hfinishes⟩)⟩
    · rename_i hfinishes
      refine ⟨hended, fun hdone => (handshaken_concat.mp hdone).elim h.2 ?_⟩
      rintro ⟨e', hcall, hdone⟩
      cases hcall
      exact hfinishes hdone

theorem next_means {phase : ClientPhase} (h : phase.Means fd r calls) :
    (phase.next fd call).Means fd r (calls ++ [call]) := by
  cases call with
  | act a => exact act_means h a
  | runOnce e => exact runOnce_means h e

/-- **What the phase after calls says about them**, by induction from the end of the calls, where
    the last one is the step. -/
theorem after_means (fd : Fd) (r : HandshakeResult) (calls : List ClientCall) :
    ((ClientPhase.first r).after fd calls).Means fd r calls := by
  induction calls using List.reverseRecOn with
  | nil =>
    have hended : ¬Ended fd r [] := by
      rintro ⟨before, call, rest, hcalls, -⟩
      simp at hcalls
    unfold ClientPhase.first ClientPhase.after
    rw [List.foldl_nil]
    split
    · exact ⟨hended, .inl ‹_›⟩
    · rename_i hr
      exact ⟨hended, fun hdone => hdone.elim hr fun ⟨e, hmem, _⟩ => by cases hmem⟩
  | append_singleton calls call ih =>
    unfold ClientPhase.after
    rw [List.foldl_append]
    exact next_means ih

end

section

variable {r : HandshakeResult} {before : List ClientCall}

/-- The phase a client really is in: the one that the calls lead to, or `closed` because of the
    callback. -/
theorem TransportClient.Stands.at (h : s.Stands fd ((ClientPhase.first r).after fd before)) :
    ∃ phase, s.At fd phase ∧ (phase = .handshaking → ¬Handshaken fd r before) ∧
      (phase = .ready → Handshaken fd r before) := by
  have hmeans := after_means fd r before
  by_cases hoff : s.CalledOff
  · exact ⟨.closed, h.closed hoff, fun h => (by cases h), fun h => (by cases h)⟩
  · refine ⟨_, h.stays hoff, fun hphase => ?_, fun hphase => ?_⟩
    · rw [hphase] at hmeans
      exact hmeans.2
    · rw [hphase] at hmeans
      exact hmeans.2

end

/-- There is nothing to wait for and nothing to send with. -/
structure TransportClient.Refused (s : TransportClient) : Prop where
  transport : s.transport = none
  fdToHandler : ∀ fd, s.fdToHandler fd = none
  handedOn : s.handedOn = []
  emitted : s.emitted = []

end Messenger
