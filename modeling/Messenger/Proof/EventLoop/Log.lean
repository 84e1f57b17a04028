import Messenger.Proof.EventLoop.Deeds
import Messenger.Proof.Server.Directory
import Messenger.Proof.Server.Services

/-!
# The event loop runs the messaging server

The event loop is one of the ways to run the messaging server: the services after a run of the loop
are those after a run of `ServerEvent`s. Which events these are can be read off the run. An event
of the loop is a message if a message was handed on and can be decoded, and the end of a connection
if the loop had a handler for the descriptor before it and has none after it (`Server.eventLog`).

`Outcome` says what one event can come to: nothing, a message or an end. Most of what a handler
does is no concern of the messaging server (`Aside`) and may stand before or after that one thing.
The hard case is a readable event, where a message and an end are both possible, the end when
`try_receive` finds the connection closed; that never both happen is in the shape of
`ServerHandler.receive`.
-/

set_option autoImplicit false

namespace Messenger

open Messenger.Lib

/-- What the messaging server makes of a call of `on_client_message`. -/
def decodeHandedOn (call : Fd × Bytes) : Option (Fd × Message) :=
  (Serializer.deserialize call.2).toOption.map fun m => (call.1, m)

/-- The message that an event brings, if it is one. -/
def ServerEvent.message? : ServerEvent → Option (Fd × Message)
  | .message _ fd m => some (fd, m)
  | .disconnect _ _ => none

namespace Server

/-- The connection of the event has ended in its handling: there was a handler for its descriptor,
    and there is none any more. -/
def Ends (s : Server) (e : EpollEvent) : Prop :=
  s.fdToHandler e.fd = some .serverHandler ∧ (s.step e).fdToHandler e.fd = none

instance (s : Server) (e : EpollEvent) : Decidable (s.Ends e) := instDecidableAnd

/-- What one event of the loop is to the messaging server. -/
def eventLog (s : Server) (e : EpollEvent) : List ServerEvent :=
  (((s.step e).handedOn.drop s.handedOn.length).filterMap decodeHandedOn).map
      (fun call => .message e.now call.1 call.2)
    ++ if s.Ends e then [.disconnect e.now e.fd] else []

/-- What a run of the loop is to the messaging server. -/
def log (s : Server) : List EpollEvent → List ServerEvent
  | [] => []
  | e :: events => s.eventLog e ++ (s.step e).log events

end Server

/-! ## Decoding -/

theorem decodeHandedOn_error {raw : Bytes} {x : Failure} (fd : Fd)
    (h : Serializer.deserialize raw = .error x) : decodeHandedOn (fd, raw) = none := by
  unfold decodeHandedOn
  rw [h]
  rfl

theorem decodeHandedOn_ok {raw : Bytes} {m : Message} (fd : Fd)
    (h : Serializer.deserialize raw = .ok m) : decodeHandedOn (fd, raw) = some (fd, m) := by
  unfold decodeHandedOn
  rw [h]
  rfl

theorem decodeHandedOn_ignored {raw : Bytes} (fd : Fd) (h : Ignored raw) :
    decodeHandedOn (fd, raw) = none := by
  rcases h with rfl | rfl
  · exact decodeHandedOn_error fd rfl
  · exact decodeHandedOn_error fd rfl

/-! ## What one event can come to -/

namespace Server

variable {s s' : Server} {e : EpollEvent}

/-- The connection of the event has its handler as before. -/
abbrev Stays (e : EpollEvent) (s s' : Server) : Prop :=
  s.fdToHandler e.fd = some .serverHandler → s'.fdToHandler e.fd = some .serverHandler

/-- What an event comes to for the messaging server. -/
inductive Outcome (e : EpollEvent) (s s' : Server) : Prop
  | quiet {new : List (Fd × Bytes)} (handedOn : s'.handedOn = s.handedOn ++ new)
      (undecodable : new.filterMap decodeHandedOn = [])
      (services : s'.context.services = s.context.services) (stays : Stays e s s')
  | message {raw : Bytes} {m : Message} (handedOn : s'.handedOn = s.handedOn ++ [(e.fd, raw)])
      (decoded : Serializer.deserialize raw = .ok m)
      (services : s'.context.services = (s.fresh.step (.message e.now e.fd m)).services)
      (stays : Stays e s s')
  | ended (handedOn : s'.handedOn = s.handedOn)
      (services : s'.context.services = (s.fresh.step (.disconnect e.now e.fd)).services)
      (was : s.fdToHandler e.fd = some .serverHandler) (gone : s'.fdToHandler e.fd = none)

theorem Outcome.of_aside (h : s.Aside s') : Outcome e s s' :=
  .quiet (h.handedOn.trans (List.append_nil _).symm) rfl (by rw [h.context]) fun hs => by
    rw [h.fdToHandler]
    exact hs

/-- Something is done aside first. The services are compared with those of the start, so the run of
    the messaging server is moved from the one state to the other; that takes `step_services_congr`,
    since only the services of the two are the same. -/
theorem Outcome.after {s₁ : Server} (h : s.Aside s₁) (h' : Outcome e s₁ s') : Outcome e s s' := by
  have hservices : s₁.context.services = s.context.services := by rw [h.context]
  have hfresh : s₁.fresh.services = s.fresh.services := hservices
  cases h' with
  | quiet handedOn undecodable services stays =>
    rw [h.handedOn] at handedOn
    refine .quiet handedOn undecodable (services.trans hservices) fun hs => stays ?_
    rw [h.fdToHandler]
    exact hs
  | message handedOn decoded services stays =>
    rw [h.handedOn] at handedOn
    rw [step_services_congr hfresh] at services
    refine .message handedOn decoded services fun hs => stays ?_
    rw [h.fdToHandler]
    exact hs
  | ended handedOn services was gone =>
    rw [step_services_congr hfresh] at services
    rw [h.fdToHandler] at was
    exact .ended (handedOn.trans h.handedOn) services was gone

theorem Outcome.before {s₁ : Server} (h : Outcome e s s₁) (h' : s₁.Aside s') : Outcome e s s' := by
  have hservices : s'.context.services = s₁.context.services := by rw [h'.context]
  cases h with
  | quiet handedOn undecodable services stays =>
    refine .quiet (h'.handedOn.trans handedOn) undecodable (hservices.trans services) fun hs => ?_
    rw [h'.fdToHandler]
    exact stays hs
  | message handedOn decoded services stays =>
    refine .message (h'.handedOn.trans handedOn) decoded (hservices.trans services) fun hs => ?_
    rw [h'.fdToHandler]
    exact stays hs
  | ended handedOn services was gone =>
    refine .ended (h'.handedOn.trans handedOn) (hservices.trans services) was ?_
    rw [h'.fdToHandler]
    exact gone

end Server

/-! ## The calls -/

section Calls

variable {α β : Type} {s : Server} {e : EpollEvent}

/-- However it ends, the call comes to what an event may come to. -/
abbrev OutcomeAt (e : EpollEvent) (x : TransportM α) (s : Server) : Prop :=
  Respects (Server.Outcome e) (fun _ => True) x s

theorem OutcomeAt.after {x : TransportM α} {f : α → TransportM β} (hx : AsideAt x s)
    (hf : ∀ a s', s.Aside s' → OutcomeAt e (f a) s') : OutcomeAt e (x >>= f) s :=
  Respects.bind hx hf (fun _ h => .of_aside h) fun _ _ h h' => .after h h'

/-- A call that comes to something, and then something aside. `Respects.bind` is of no use here: it
    would ask for a relation for the second part that can be put behind any outcome of the first. -/
theorem OutcomeAt.before {x : TransportM α} {f : α → TransportM β} (hx : OutcomeAt e x s)
    (hf : ∀ a s, AsideAt (f a) s) : OutcomeAt e (x >>= f) s := by
  have hstate := hx.state
  refine ⟨?_, fun _ => trivial⟩
  cases hr : x s with
  | ok a s₁ =>
    rw [finalState_ok hr] at hstate
    rw [finalState_bind_ok hr]
    exact hstate.before (hf a s₁).state
  | error err s₁ =>
    rw [finalState_error hr] at hstate
    rw [finalState_bind_error hr]
    exact hstate

theorem OutcomeAt.of_aside {x : TransportM α} (h : AsideAt x s) : OutcomeAt e x s :=
  h.mono fun _ h => .of_aside h

/-- A connection ends. It had its handler, by hypothesis; after it the loop has none. -/
theorem drop_outcome (h : s.fdToHandler e.fd = some .serverHandler) :
    OutcomeAt e (ServerHandler.drop e.fd e.now) s :=
  Respects.of_ok (drop_run e.fd e.now s) (.ended rfl rfl h (Table.erase_self ..))

/-- A message is handed on. It is quiet if nothing comes of it, because it is ignored or cannot be
    decoded. -/
theorem onClientMessage_outcome (e : EpollEvent) (raw : Bytes) (s : Server) :
    OutcomeAt e (Server.onClientMessage e.fd raw e.now) s := by
  by_cases hignored : Ignored raw
  · refine Respects.of_ok (onClientMessage_ignored hignored e.fd e.now s) (.quiet rfl ?_ rfl id)
    exact List.filterMap_cons_none (decodeHandedOn_ignored e.fd hignored)
  have hcallback := onClientMessage_callback hignored e.fd e.now s
  cases hdecode : Serializer.deserialize raw with
  | error x =>
    have hrun := hcallback.trans (callback_error (onTcpDataReceived_error hdecode e.fd _))
    refine ⟨?_, fun _ => trivial⟩
    rw [finalState_error hrun]
    exact .quiet rfl (List.filterMap_cons_none (decodeHandedOn_error e.fd hdecode)) rfl id
  | ok m =>
    obtain ⟨context, hhandle, -⟩ :=
      handleMessage_returns e.fd m { s.context with now := e.now, outbox := [] }
    have hstep : s.fresh.step (.message e.now e.fd m) = context := finalState_ok hhandle
    rw [← onTcpDataReceived_ok hdecode] at hhandle
    refine Respects.of_ok (hcallback.trans (callback_ok hhandle)) (.message rfl hdecode ?_ id)
    rw [hstep]
    rfl

/-- The readable part of an event. Whichever way it goes, the connection is written back first,
    which is done aside; after that a closed connection ends, and an open one hands on at most one
    message. -/
theorem receive_outcome (h : s.fdToHandler e.fd = some .serverHandler) :
    OutcomeAt e (ServerHandler.receive e) s := by
  have hset (conn : ClientConnection) := Server.Aside.setConnection s e.fd conn
  cases hclient : s.clients e.fd with
  | none =>
    refine Respects.get_bind ?_
    rw [hclient]
    exact Respects.pure _ (.of_aside (.refl s))
  | some u =>
    cases hconn : s.connections e.fd with
    | none =>
      refine Respects.get_bind ?_
      rw [hclient]
      dsimp only
      rw [hconn]
      exact Respects.throw (.of_aside (.refl s)) trivial
    | some conn =>
      cases hopen : (conn.tryReceive e.net).1 with
      | false =>
        -- the connection ends, and nothing is handed on
        refine Respects.of_run (receive_closed hclient hconn hopen)
          (OutcomeAt.before (drop_outcome h) fun _ s => Respects.pure _ (.refl s)) fun _ h => ?_
        exact .after (hset _) h
      | true =>
        cases hnext : nextMessage (conn.received e.net).recvBuffer with
        | error x =>
          refine ⟨?_, fun _ => trivial⟩
          rw [finalState_error (receive_error hclient hconn hopen hnext)]
          exact .of_aside (hset _)
        | ok r =>
          cases r with
          | none =>
            exact Respects.of_ok (receive_none hclient hconn hopen hnext) (.of_aside (hset _))
          | some r =>
            refine Respects.of_run (receive_some hclient hconn hopen hnext)
              (OutcomeAt.before (onClientMessage_outcome e r.1 _) fun _ s =>
                Respects.pure _ (.refl s)) fun _ h => ?_
            exact .after (hset _) h

/-- An event at a client. The handshake and the writing are done aside, so the outcome is that of
    the reading, or of the hang-up. -/
theorem serverHandler_outcome (h : s.fdToHandler e.fd = some .serverHandler) :
    OutcomeAt e (ServerHandler.handleEvent e) s := by
  have hwrite (goesOn : Bool) (s : Server) :
      AsideAt (if goesOn ∧ e.writable then ServerHandler.write e else pure ()) s := by
    split
    · exact write_aside e s
    · exact Respects.pure _ (.refl s)
  unfold ServerHandler.handleEvent
  split
  · exact drop_outcome h
  · refine .after (tlsHandshakeDone_aside e.fd s) fun done s haside => ?_
    split
    · dsimp only
      split
      · -- the handler is still there when the reading begins
        refine .before (receive_outcome ?_) hwrite
        rw [haside.fdToHandler]
        exact h
      · exact .before (Respects.pure true (.of_aside (.refl s))) hwrite
    · split
      · exact .of_aside (tlsHandshake_aside e.fd e.handshake s)
      · exact Respects.pure _ (.of_aside (.refl s))

/-- A new connection is not there for the messaging server yet, and no other loses its handler. -/
theorem acceptHandler_outcome (e : EpollEvent) (s : Server) :
    OutcomeAt e (AcceptHandler.handleEvent e) s := by
  have hinsert (fd : Fd) (hs : s.fdToHandler e.fd = some .serverHandler) :
      s.fdToHandler.insert fd .serverHandler e.fd = some .serverHandler := by
    by_cases hfd : e.fd = fd
    · rw [hfd]
      exact Table.insert_self ..
    · rw [Table.insert_of_ne hfd]
      exact hs
  have hquiet {s' : Server} (fd : Fd) (hcontext : s'.context = s.context)
      (hhanded : s'.handedOn = s.handedOn)
      (hhandler : s'.fdToHandler = s.fdToHandler.insert fd .serverHandler) :
      Server.Outcome e s s' := by
    refine .quiet (hhanded.trans (List.append_nil _).symm) rfl (by rw [hcontext]) fun hs => ?_
    rw [hhandler]
    exact hinsert fd hs
  unfold AcceptHandler.handleEvent
  split
  · split
    · exact Respects.pure _ (.of_aside (.refl s))
    · rename_i fd _
      cases hr : e.handshake with
      | failed =>
        refine ⟨?_, fun _ => trivial⟩
        rw [finalState_error (onClientConnected_failed fd _ s)]
        exact hquiet fd rfl rfl rfl
      | done => exact Respects.of_ok (onClientConnected_ok rfl fd _ s) (hquiet fd rfl rfl rfl)
      | wouldBlock => exact Respects.of_ok (onClientConnected_ok rfl fd _ s) (hquiet fd rfl rfl rfl)
  · exact Respects.pure _ (.of_aside (.refl s))

/-- **One event** comes to nothing, to a message or to an end. -/
theorem step_outcome (e : EpollEvent) (s : Server) : Server.Outcome e s (s.step e) := by
  have hevent : OutcomeAt e (EventLoop.handleEvent e) s := by
    refine Respects.get_bind ?_
    split
    · exact Respects.pure _ (.of_aside (.refl s))
    · exact acceptHandler_outcome e s
    · rename_i h
      exact serverHandler_outcome h
  exact hevent.state

end Calls

/-! ## Runs -/

section Runs

variable {s : Server} {e : EpollEvent}

theorem Server.Stays.not_ends (h : Server.Stays e s (s.step e)) : ¬s.Ends e := by
  rintro ⟨hwas, hgone⟩
  rw [h hwas] at hgone
  cases hgone

/-- **What the messaging server makes of one event** is what it makes of the log of it. The log is
    read off the two states, and each outcome leaves them such that the log is what it should be:
    `Ends` is decided by the handler, and the messages by what has been added to `handedOn`. -/
theorem step_logged (s : Server) (e : EpollEvent) {before : List ServerEvent}
    (h : s.context.services = (serverAfter before).services) :
    (s.step e).context.services = (serverAfter (before ++ s.eventLog e)).services ∧
      (s.step e).handedOn.filterMap decodeHandedOn
        = s.handedOn.filterMap decodeHandedOn ++ (s.eventLog e).filterMap ServerEvent.message? := by
  have hfresh : s.fresh.services = (serverAfter before).services := h
  unfold Server.eventLog
  cases step_outcome e s with
  | quiet handedOn undecodable services stays =>
    rw [if_neg stays.not_ends, handedOn, List.drop_left, undecodable, List.filterMap_append,
      undecodable, services, h]
    exact ⟨by rw [List.map_nil, List.append_nil, List.append_nil], rfl⟩
  | @message raw m handedOn decoded services stays =>
    have hdecoded : [(e.fd, raw)].filterMap decodeHandedOn = [(e.fd, m)] :=
      List.filterMap_cons_some (decodeHandedOn_ok e.fd decoded)
    rw [if_neg stays.not_ends, handedOn, List.drop_left, List.filterMap_append, hdecoded, services,
      step_services_congr hfresh]
    exact ⟨congrArg _ (serverAfter_concat before _).symm, rfl⟩
  | ended handedOn services was gone =>
    have hends : s.Ends e := ⟨was, gone⟩
    rw [if_pos hends, handedOn, List.drop_length, services, step_services_congr hfresh]
    exact ⟨congrArg _ (serverAfter_concat before _).symm, (List.append_nil _).symm⟩

/-- The same of a run, by induction on its events. `before` is the log so far. -/
theorem run_logged (s : Server) (events : List EpollEvent) (before : List ServerEvent)
    (h : s.context.services = (serverAfter before).services) :
    (s.run events).context.services = (serverAfter (before ++ s.log events)).services ∧
      (s.run events).handedOn.filterMap decodeHandedOn
        = s.handedOn.filterMap decodeHandedOn
          ++ (s.log events).filterMap ServerEvent.message? := by
  induction events generalizing s before with
  | nil => exact ⟨h.trans (by rw [Server.log, List.append_nil]), (List.append_nil _).symm⟩
  | cons e events ih =>
    obtain ⟨hservices, hhanded⟩ := step_logged s e h
    obtain ⟨hrest, hmessages⟩ := ih (s.step e) _ hservices
    refine ⟨?_, ?_⟩
    · rw [Server.log, ← List.append_assoc]
      exact hrest
    · rw [Server.log, List.filterMap_append, ← List.append_assoc, ← hhanded]
      exact hmessages

end Runs

/-- **The event loop runs the messaging server.** The services after any run of the loop are those
    after a run of the messaging server on the log of it: for each event, in order, the message that
    was handed on and could be decoded, or the end of the connection if the loop has let go of it.
    The messages of the log are all those that were handed on and can be decoded. -/
theorem event_loop_refines (socket : Fd) (events : List EpollEvent) :
    ((Server.started socket {}).run events).context.services
        = (serverAfter ((Server.started socket {}).log events)).services ∧
      ((Server.started socket {}).log events).filterMap ServerEvent.message?
        = ((Server.started socket {}).run events).handedOn.filterMap decodeHandedOn := by
  obtain ⟨hservices, hmessages⟩ := run_logged (Server.started socket {}) events [] rfl
  exact ⟨hservices, hmessages.symm⟩

end Messenger
