import Mathlib.Logic.Relation
import Messenger.Proof.EventLoop.Handlers

/-!
# What the handling of an event comes to

The handling of one event is a few deeds one after the other (`handleEvent_deeds`). Only two of
them run the messaging server: a message is handed to it, or it is told that a connection has
ended. All the others leave it alone, and keep every connection that there is.

An event whose handling throws counts too, with the deeds done up to then.

The point of `Deed` is that an invariant that speaks of both the transport and the messaging server
has to be checked for five deeds instead of for every path through the handlers. `run_deeds` then
carries it along every run.
-/

set_option autoImplicit false

namespace Messenger

open Messenger.Lib Relation

/-- The context that a callback starts from. What it had sent before is in the buffers. -/
def Server.fresh (s : Server) : ServerContext := { s.context with outbox := [] }

/-- What is no concern of the messaging server: no connection or handler is lost. -/
structure Server.Aside (s s' : Server) : Prop where
  context : s'.context = s.context
  handedOn : s'.handedOn = s.handedOn
  fdToHandler : s'.fdToHandler = s.fdToHandler
  connections : ∀ g, (s.connections g).isSome → (s'.connections g).isSome

/-- What can be done to the server in one go. The conditions are those under which the handlers do
    it; a message, for instance, comes from a descriptor that has a connection. -/
inductive Server.Deed (s : Server) : Server → Prop
  -- Accepting, the handshake, receiving and flushing.
  | aside {s' : Server} (context : s'.context = s.context) (handedOn : s'.handedOn = s.handedOn)
      (connections : ∀ g, (s.connections g).isSome → (s'.connections g).isSome) : Deed s s'
  | ignored {raw : Bytes} (fd : Fd) (hraw : Ignored raw) : Deed s (s.noted fd raw)
  | undecodable {raw : Bytes} {x : Failure} (now : UInt64) (fd : Fd)
      (hraw : Serializer.deserialize raw = .error x) :
      Deed s ((s.noted fd raw).afterCallback { s.fresh with now := now })
  | message {raw : Bytes} {m : Message} (now : UInt64) {fd : Fd} (hfd : (s.connections fd).isSome)
      (hraw : Serializer.deserialize raw = .ok m) :
      Deed s ((s.noted fd raw).afterCallback (s.fresh.step (.message now fd m)))
  | hangUp (now : UInt64) (fd : Fd) :
      Deed s ((s.afterCallback (s.fresh.step (.disconnect now fd))).without fd)

/-- However it ends, the call is no concern of the messaging server. -/
abbrev AsideAt {α : Type} (x : TransportM α) (s : Server) : Prop :=
  Respects Server.Aside (fun _ => True) x s

/-- However it ends, the call is a few deeds. -/
abbrev DeedsAt {α : Type} (x : TransportM α) (s : Server) : Prop :=
  Respects (ReflTransGen Server.Deed) (fun _ => True) x s

variable {s s' : Server} {fd : Fd} {now : UInt64} {e : EpollEvent}

/-! ## What is done aside -/

namespace Server.Aside

theorem refl (s : Server) : s.Aside s := ⟨rfl, rfl, rfl, fun _ => id⟩

theorem trans {t : Server} (h : s.Aside s') (h' : s'.Aside t) : s.Aside t :=
  ⟨h'.context.trans h.context, h'.handedOn.trans h.handedOn, h'.fdToHandler.trans h.fdToHandler,
    fun g hg => h'.connections g (h.connections g hg)⟩

theorem deed (h : s.Aside s') : s.Deed s' := .aside h.context h.handedOn h.connections

theorem setConnection (s : Server) (fd : Fd) (conn : ClientConnection) :
    s.Aside (s.setConnection fd conn) := by
  refine ⟨rfl, rfl, rfl, fun g hg => ?_⟩
  by_cases hgfd : g = fd
  · subst hgfd
    simp [Server.setConnection]
  · simpa [Server.setConnection, Table.insert_of_ne hgfd] using hg

end Server.Aside

theorem AsideAt.bind {α β : Type} {x : TransportM α} {f : α → TransportM β} (hx : AsideAt x s)
    (hf : ∀ a s, AsideAt (f a) s) : AsideAt (x >>= f) s :=
  Respects.bind hx (fun a s' _ => hf a s') (fun _ h => h) fun _ _ h h' => h.trans h'

/-- Looking a wrapper up may make an entry, which is not the messaging server's business. -/
theorem wrapperAt_aside (fd : Fd) (s : Server) : AsideAt (Server.wrapperAt fd) s := by
  refine Respects.get_bind ?_
  split
  · exact Respects.pure _ (.refl s)
  · exact Respects.of_ok rfl ⟨rfl, rfl, rfl, fun _ => id⟩

theorem tlsHandshakeDone_aside (fd : Fd) (s : Server) : AsideAt (Server.tlsHandshakeDone fd) s := by
  refine AsideAt.bind (wrapperAt_aside fd s) fun w s => ?_
  cases w with
  | none => exact Respects.throw (.refl s) trivial
  | some w => exact Respects.pure _ (.refl s)

theorem tlsHandshake_aside (fd : Fd) (r : HandshakeResult) (s : Server) :
    AsideAt (Server.tlsHandshake fd r) s := by
  refine AsideAt.bind (wrapperAt_aside fd s) fun w s => ?_
  cases w with
  | none => exact Respects.throw (.refl s) trivial
  | some w =>
    dsimp only
    cases w.tlsHandshake r with
    | error x => exact Respects.throw (.refl s) trivial
    | ok w' => exact Respects.of_ok rfl ⟨rfl, rfl, rfl, fun _ => id⟩

theorem write_aside (e : EpollEvent) (s : Server) : AsideAt (ServerHandler.write e) s := by
  refine Respects.get_bind ?_
  split
  · exact Respects.pure _ (.refl s)
  · refine Respects.get_bind ?_
    split
    · exact Respects.pure _ (.refl s)
    · exact Respects.of_ok rfl (.setConnection ..)

/-! ## A few deeds -/

namespace DeedsAt

variable {α β : Type} {x : TransportM α}

theorem of_aside (h : AsideAt x s) : DeedsAt x s := h.mono fun _ h => .single h.deed

theorem pure (a : α) (s : Server) : DeedsAt (Pure.pure a) s := Respects.pure a .refl

/-- Deeds after deeds. That the first call may fail is covered: then its deeds are all there are. -/
theorem bind {f : α → TransportM β} (hx : DeedsAt x s) (hf : ∀ a s, DeedsAt (f a) s) :
    DeedsAt (x >>= f) s :=
  Respects.bind hx (fun a s' _ => hf a s') (fun _ h => h) fun _ _ h h' => h.trans h'

theorem get_bind {f : Server → TransportM β} (h : DeedsAt (f s) s) : DeedsAt (get >>= f) s :=
  Respects.get_bind h

theorem from_deed {y : TransportM α} (hxy : x s = y s') (hdeed : s.Deed s') (h : DeedsAt y s') :
    DeedsAt x s :=
  Respects.of_run hxy h fun _ ht => .head hdeed ht

theorem of_deed_ok {a : α} (hx : x s = .ok a s') (hdeed : s.Deed s') : DeedsAt x s :=
  Respects.of_ok hx (.single hdeed)

theorem of_deed_error {err : Failure} (hx : x s = .error err s') (hdeed : s.Deed s') :
    DeedsAt x s := by
  refine ⟨?_, fun _ => trivial⟩
  rw [finalState_error hx]
  exact .single hdeed

end DeedsAt

/-! ## The calls -/

/-- A new connection is a single deed aside, also when the handshake fails at once and some of the
    tables are left without it. -/
theorem onClientConnected_deeds (fd : Fd) (conn : ClientConnection) (r : HandshakeResult)
    (s : Server) : DeedsAt (Server.onClientConnected fd conn r) s := by
  -- whatever is put in at `fd`, no connection is lost
  have hinsert (conn : ClientConnection) (g : Fd) (hg : (s.connections g).isSome) :
      (s.connections.insert fd conn g).isSome := by
    by_cases hgfd : g = fd
    · subst hgfd
      simp
    · simpa [Table.insert_of_ne hgfd] using hg
  cases r with
  | failed =>
    exact .of_deed_error (onClientConnected_failed fd conn s) (.aside rfl rfl (hinsert conn))
  | done => exact .of_deed_ok (onClientConnected_ok rfl fd conn s) (.aside rfl rfl (hinsert _))
  | wouldBlock =>
    exact .of_deed_ok (onClientConnected_ok rfl fd conn s) (.aside rfl rfl (hinsert _))

/-- The callback finds the context as it is, and the four tables without the client. -/
theorem drop_run (fd : Fd) (now : UInt64) (s : Server) :
    ServerHandler.drop fd now s
      = .ok () ((s.afterCallback (s.fresh.step (.disconnect now fd))).without fd) := by
  obtain ⟨context, hcallback, -⟩ :=
    onDisconnected_returns fd { s.context with now := now, outbox := [] }
  have hstep : s.fresh.step (.disconnect now fd) = context := finalState_ok hcallback
  have hrun := callback_ok (s := { s with
    clients := s.clients.erase fd, fdToHandler := s.fdToHandler.erase fd }) hcallback
  rw [hstep]
  exact bind_ok hrun

theorem drop_deeds (fd : Fd) (now : UInt64) (s : Server) : DeedsAt (ServerHandler.drop fd now) s :=
  .of_deed_ok (drop_run fd now s) (.hangUp now fd)

/-- A message is one of three deeds: it is ignored, it cannot be decoded, or the messaging server
    handles it. -/
theorem onClientMessage_deeds (hfd : (s.connections fd).isSome) (raw : Bytes) (now : UInt64) :
    DeedsAt (Server.onClientMessage fd raw now) s := by
  by_cases hignored : Ignored raw
  · exact .of_deed_ok (onClientMessage_ignored hignored fd now s) (.ignored fd hignored)
  have hcallback := onClientMessage_callback hignored fd now s
  cases hdecode : Serializer.deserialize raw with
  | error x =>
    exact .of_deed_error (hcallback.trans (callback_error (onTcpDataReceived_error hdecode fd _)))
      (.undecodable now fd hdecode)
  | ok m =>
    obtain ⟨context, hhandle, -⟩ :=
      handleMessage_returns fd m { s.context with now := now, outbox := [] }
    have hstep : s.fresh.step (.message now fd m) = context := finalState_ok hhandle
    -- the handler never fails, so what it leaves is what the messaging server's own step leaves
    rw [← onTcpDataReceived_ok hdecode] at hhandle
    have hdeed := Server.Deed.message now hfd hdecode
    rw [hstep] at hdeed
    exact .of_deed_ok (hcallback.trans (callback_ok hhandle)) hdeed

/-- The readable part of an event: the connection is written back with what has come, which is a
    deed aside, and then at most one thing happens. The case with a message is the one where the
    deed needs a condition, that the descriptor has a connection. It has been put in just before. -/
theorem receive_deeds (e : EpollEvent) (s : Server) : DeedsAt (ServerHandler.receive e) s := by
  cases hclient : s.clients e.fd with
  | none =>
    refine DeedsAt.get_bind ?_
    rw [hclient]
    exact .pure _ s
  | some u =>
    cases hconn : s.connections e.fd with
    | none =>
      refine DeedsAt.get_bind ?_
      rw [hclient]
      dsimp only
      rw [hconn]
      exact Respects.throw .refl trivial
    | some conn =>
      cases hopen : (conn.tryReceive e.net).1 with
      | false =>
        exact .from_deed (receive_closed hclient hconn hopen) (Server.Aside.setConnection ..).deed
          ((drop_deeds ..).bind fun _ _ => .pure ..)
      | true =>
        cases hnext : nextMessage (conn.received e.net).recvBuffer with
        | error x =>
          exact .of_deed_error (receive_error hclient hconn hopen hnext)
            (Server.Aside.setConnection ..).deed
        | ok r =>
          cases r with
          | none =>
            exact .of_deed_ok (receive_none hclient hconn hopen hnext)
              (Server.Aside.setConnection ..).deed
          | some r =>
            refine .from_deed (receive_some hclient hconn hopen hnext)
              (Server.Aside.setConnection ..).deed
              ((onClientMessage_deeds ?_ r.1 e.now).bind fun _ _ => .pure ..)
            simp [Server.setConnection]

/-- **An event is a few deeds.** The proof follows `handle_event` branch by branch, and each call it
    comes to has its lemma above. -/
theorem handleEvent_deeds (e : EpollEvent) (s : Server) : DeedsAt (EventLoop.handleEvent e) s := by
  refine DeedsAt.get_bind ?_
  split
  · exact .pure _ s
  · unfold AcceptHandler.handleEvent
    split
    · split
      · exact .pure _ s
      · exact onClientConnected_deeds ..
    · exact .pure _ s
  · unfold ServerHandler.handleEvent
    split
    · exact drop_deeds ..
    · refine (DeedsAt.of_aside (tlsHandshakeDone_aside e.fd s)).bind fun done s => ?_
      split
      · have hwrite (goesOn : Bool) (s : Server) :
            DeedsAt (if goesOn ∧ e.writable then ServerHandler.write e else pure ()) s := by
          split
          · exact .of_aside (write_aside e s)
          · exact .pure _ s
        dsimp only
        split
        · exact (receive_deeds e s).bind hwrite
        · exact (DeedsAt.pure true s).bind hwrite
      · split
        · exact .of_aside (tlsHandshake_aside ..)
        · exact .pure _ s

theorem run_deeds (s : Server) (events : List EpollEvent) :
    ReflTransGen Server.Deed s (s.run events) := by
  induction events generalizing s with
  | nil => exact .refl
  | cons e events ih => exact (handleEvent_deeds e s).state.trans (ih (s.step e))

end Messenger
