import Messenger.Proof.Conversation.Client
import Messenger.Proof.Conversation.Server

/-!
# Two clients and a server are an exchange

The state of a conversation realises that of an exchange between the two: the clients play
their parts, and what is on its way from one to the other, first in the queue to the
server and then in the queue from it, is the flight of the exchange (`Conveys`). Every action
of the conversation is one of the exchange, or none, whatever the order: `realises_pmess` and
`realises_serve` are none, and `realises_deliver` is a sending or a receiving.

Requests and replies are in the queues as well. They are items without a message, and are
left out of the flight by `reduceOption`.
-/

set_option autoImplicit false

namespace Messenger

open Messenger.Lib

variable (ssl : OpenSSL) (acct : Party → Account) (fd : Party → Fd)

/-- The messages from `p` that are in the two queues are those of `flight`, the ones that
    the server has handled first. -/
def Conveys (s : Conversation) (p : Party) (flight : List (UInt64 × Bytes)) : Prop :=
  ∃ xs ys, List.Forall₂ (ToServer ssl acct p) (s.toServer p) xs ∧
    List.Forall₂ (FromServer ssl acct p.other) (s.fromServer p.other) ys ∧
    flight = ys.reduceOption ++ xs.reduceOption

/-- The conversation is in the state `e` of the exchange. -/
structure Realises (s : Conversation) (e : Talk) : Prop where
  server : LoggedIn ssl acct fd s.server
  client : ∀ p, Plays acct p (s.client p) e
  conveys : ∀ p, Conveys ssl acct s p (e.flight p)
  sent : s.sent = e.sent

variable {ssl acct fd} {s : Conversation} {e : Talk} {p : Party}

/-- There are two parties, so what holds of one and of the other holds of all. -/
theorem forall_party {P : Party → Prop} (p : Party) (hp : P p) (hother : P p.other) : ∀ q, P q := by
  intro q
  rcases q.eq_or_eq_other p with rfl | rfl
  · exact hp
  · exact hother

/-! ## A client runs -/

theorem Plays.reset (h : Plays acct p (s.client p) e) (now : UInt64) :
    Plays acct p { s.client p with now := now, outgoing := [] } e := { h with }

/-- If the client of `p` plays its part of `e'` after a run, and its outgoing messages are
    added to the flight, the conversation realises `e'`. -/
theorem realises_runClient {e' : Talk} {now : UInt64} {x : ClientM Unit} {after : ClientContext}
    {items : List (Option (UInt64 × Bytes))} {flight : List (UInt64 × Bytes)}
    (hserver : LoggedIn ssl acct fd s.server)
    (hrun : x { s.client p with now := now, outgoing := [] } = .ok () after)
    (hafter : Plays acct p after e') (hother : Plays acct p.other (s.client p.other) e')
    (hout : Outgoing ssl acct p { s.client p with now := now, outgoing := [] } after items)
    (hconveys : Conveys ssl acct s p flight) (hflight : e'.flight p = flight ++ items.reduceOption)
    (hconveysOther : Conveys ssl acct s p.other (e'.flight p.other))
    (hsent : e'.sent = Function.update s.sent p (s.sent p ++
      ((s.client p).mq.pending (acct p.other).name).take
        (((s.client p).mq.pending (acct p.other).name).length
          - (after.mq.pending (acct p.other).name).length))) :
    Realises ssl acct fd (s.runClient (fun p => (acct p).name) now p x) e' := by
  have hfinal : finalState x { s.client p with now := now, outgoing := [] } = after :=
    finalState_ok hrun
  unfold Conversation.runClient
  simp only [hfinal]
  refine ⟨hserver, ?_, ?_, hsent.symm⟩
  · refine forall_party p ?_ ?_
    · simpa using hafter
    · simpa using hother
  · refine forall_party p ?_ ?_
    · obtain ⟨xs, ys, hxs, hys, rfl⟩ := hconveys
      obtain ⟨raws, hraws, hitems⟩ := hout
      refine ⟨xs ++ items, ys, ?_, hys, ?_⟩
      · have hraws : after.outgoing = raws := hraws
        dsimp only
        rw [Function.update_self, hraws]
        exact List.rel_append hxs hitems
      · rw [hflight, List.reduceOption_append, List.append_assoc]
    · obtain ⟨xs, ys, hxs, hys, hflight⟩ := hconveysOther
      refine ⟨xs, ys, ?_, hys, hflight⟩
      dsimp only
      rw [Function.update_of_ne (Party.other_ne p)]
      exact hxs

theorem realises_pmess (h : Peers ssl acct) (hs : Realises ssl acct fd s e) (now : UInt64)
    {text : Bytes} (htext : text.length < 2 ^ 31) :
    Realises ssl acct fd (s.step ssl (fun p => (acct p).name) fd now (.pmess p text)) e := by
  obtain ⟨after, items, hrun, hafter, hqueue, hout, hnone⟩ :=
    pmess_run h ((hs.client p).reset now) htext
  refine realises_runClient hs.server hrun hafter (hs.client p.other) hout (hs.conveys p) ?_
    (hs.conveys p.other) ?_
  · rw [hnone, List.append_nil]
  · have hleft : ((s.client p).mq.pending (acct p.other).name).length
        - (after.mq.pending (acct p.other).name).length = 0 := Nat.sub_eq_zero_of_le hqueue
    rw [hleft, List.take_zero, List.append_nil, Function.update_eq_self]
    exact hs.sent.symm

/-- A message that a client handles leaves the queue from the server. If it is a private one it is
    the first in flight, as the server's queue comes before the other. -/
theorem Conveys.deliver {raw : Bytes} {rest : List Bytes} (hs : Realises ssl acct fd s e)
    (hqueue : s.fromServer p = raw :: rest) :
    ∃ item flight, FromServer ssl acct p raw item ∧
      e.flight p.other = item.toList ++ flight ∧
      Conveys ssl acct { s with fromServer := Function.update s.fromServer p rest } p.other flight ∧
      Conveys ssl acct { s with fromServer := Function.update s.fromServer p rest } p
        (e.flight p) := by
  obtain ⟨xs, ys, hxs, hys, hflight⟩ := hs.conveys p.other
  obtain ⟨xs', ys', hxs', hys', hflight'⟩ := hs.conveys p
  rw [Party.other_other, hqueue] at hys
  cases hys with
  | cons hitem hrest =>
    rename_i item ys
    refine ⟨item, ys.reduceOption ++ xs.reduceOption, hitem, ?_, ⟨xs, ys, hxs, ?_, rfl⟩,
      ⟨xs', ys', hxs', ?_, hflight'⟩⟩
    · rw [hflight, ← List.append_assoc]
      cases item with
      | none => rfl
      | some message => rfl
    · simpa using hrest
    · simpa using hys'

/-- What the delivery of a message does to the exchange. The two cases are the two kinds of messages
    that the server sends: a reply sends what is queued, and a private message is received, or
    dropped. -/
theorem realises_deliver (h : Peers ssl acct) (hs : Realises ssl acct fd s e) (now : UInt64)
    {raw : Bytes} {rest : List Bytes} (hqueue : s.fromServer p = raw :: rest) :
    Realises ssl acct fd (s.step ssl (fun p => (acct p).name) fd now (.deliver p))
      (if messageType raw = some .response then
        e.sendAll nextCounter p ((s.client p).mq.pending (acct p.other).name)
      else e.receive nextCounter p) := by
  obtain ⟨item, flight, hitem, hflight, hconveys, hconveysSame⟩ := Conveys.deliver hs hqueue
  rw [Conversation.step_deliver ssl _ fd hqueue]
  cases hitem with
  | reply hraw =>
    rw [if_pos (messageType_of_carries hraw)]
    obtain ⟨hcounter, hshown, hother⟩ := e.sendAll_other nextCounter p
      ((s.client p).mq.pending (acct p.other).name)
    obtain ⟨after, items, hrun, hafter, hnil, hout, hsends⟩ :=
      onTcpDataReceived_keyReply h ((hs.client p).reset now) hraw rfl
    refine realises_runClient hs.server hrun hafter ((hs.client p.other).congr hcounter hshown)
      hout hconveysSame hsends ?_ ?_
    · rw [hother, hflight]
      exact hconveys
    · rw [hnil, List.length_nil, Nat.sub_zero, List.take_length, Exchange.sendAll_sent]
      exact congrArg (fun sent => Function.update sent p (sent p ++ _)) hs.sent.symm
  | message hraw hsealed =>
    rw [if_neg (by rw [messageType_of_carries hraw]; decide)]
    obtain ⟨hcounter, hshown, hsame⟩ := e.receive_other nextCounter p
    obtain ⟨after, hrun, hafter, hmq, hout⟩ :=
      onTcpDataReceived_forwarded h ((hs.client p).reset now) hraw hsealed hflight
    refine realises_runClient hs.server hrun hafter
      ((hs.client p.other).congr hcounter hshown) (.nil rfl hout) hconveysSame ?_ ?_ ?_
    · rw [hsame]
      exact (List.append_nil _).symm
    · rw [e.receive_flight nextCounter p hflight]
      exact hconveys
    · have hmq : after.mq = (s.client p).mq := hmq
      rw [hmq, Nat.sub_self, List.take_zero, List.append_nil, Function.update_eq_self,
        Exchange.receive_sent]
      exact hs.sent.symm

/-! ## The server runs -/

theorem fromServer_runServer (h : Peers ssl acct) (hserver : LoggedIn ssl acct fd s.server)
    {now : UInt64} {raw : Bytes} {q : Party} {msg : Message}
    (hrun : MessagingServer.onTcpDataReceived (fd p) raw { s.server with now := now, outbox := [] }
      = .ok () (ServerContext.sentTo
          { s.server with now := now, outbox := [], fd := fd p } (fd q) msg)) :
    (s.runServer fd now p raw).fromServer q = s.fromServer q ++ [Serializer.serialize msg] ∧
      (s.runServer fd now p raw).fromServer q.other = s.fromServer q.other ∧
      LoggedIn ssl acct fd (s.runServer fd now p raw).server := by
  have hne : fd q ≠ fd q.other := hserver.fd_ne h
  unfold Conversation.runServer
  rw [finalState_ok hrun]
  refine ⟨?_, ?_, hserver.congr rfl⟩
  · simp [ServerContext.sentTo, Packet.bytes]
  · simp [ServerContext.sentTo, hne]

/-- The server's work is not seen in the exchange: a message stays on its way, and moves from the
    end of the one queue to the end of the other. -/
theorem realises_serve (h : Peers ssl acct) (hs : Realises ssl acct fd s e) (now : UInt64)
    {raw : Bytes} {rest : List Bytes} (hqueue : s.toServer p = raw :: rest) :
    Realises ssl acct fd (s.step ssl (fun p => (acct p).name) fd now (.serve p)) e := by
  obtain ⟨xs, ys, hxs, hys, hflight⟩ := hs.conveys p
  obtain ⟨xs', ys', hxs', hys', hflight'⟩ := hs.conveys p.other
  have hserver : LoggedIn ssl acct fd { s.server with now := now, outbox := [] } :=
    hs.server.congr rfl
  rw [Conversation.step_serve ssl _ fd hqueue]
  rw [hqueue] at hxs
  rw [Party.other_other] at hys'
  cases hxs with
  | cons hitem hrest =>
    rename_i item xs
    cases hitem with
    | request hraw hname =>
      -- the reply goes back to the one who asked
      obtain ⟨msg, hrun, hcarries⟩ := onTcpDataReceived_request hserver h hraw hname
      obtain ⟨hto, hother, hlogged⟩ := fromServer_runServer
        (s := { s with toServer := Function.update s.toServer p rest }) h hs.server hrun
      refine ⟨hlogged, hs.client, forall_party p ?_ ?_, hs.sent⟩
      · refine ⟨xs, ys, ?_, ?_, hflight⟩
        · simpa [Conversation.runServer] using hrest
        · rw [hother]
          exact hys
      · refine ⟨xs', ys' ++ [none], ?_, ?_, ?_⟩
        · simpa [Conversation.runServer] using hxs'
        · rw [Party.other_other, hto]
          exact List.rel_append hys' (.cons (.reply hcarries) .nil)
        · rw [hflight', List.reduceOption_append]
          simp
    | message hraw hsealed htext =>
      rename_i n text ciphertext
      have hlen := hsealed.length
      obtain ⟨msg, hrun, hcarries⟩ := onTcpDataReceived_message hserver h hraw (by omega)
      obtain ⟨hto, hother, hlogged⟩ := fromServer_runServer
        (s := { s with toServer := Function.update s.toServer p rest }) h hs.server hrun
      rw [Party.other_other] at hother
      have hforwarded : FromServer ssl acct p.other (Serializer.serialize msg)
          (some (n, text)) := by
        refine .message hcarries ?_
        rw [Party.other_other]
        exact hsealed
      refine ⟨hlogged, hs.client, forall_party p ?_ ?_, hs.sent⟩
      · refine ⟨xs, ys ++ [some (n, text)], ?_, ?_, ?_⟩
        · simpa [Conversation.runServer] using hrest
        · rw [hto]
          exact List.rel_append hys (.cons hforwarded .nil)
        · rw [hflight, List.reduceOption_append, List.append_assoc]
          rfl
      · refine ⟨xs', ys', ?_, ?_, hflight'⟩
        · simpa [Conversation.runServer] using hxs'
        · rw [Party.other_other, hother]
          exact hys'

end Messenger
