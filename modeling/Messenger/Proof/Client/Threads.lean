import Messenger.Model.Threads
import Messenger.Proof.Client.Sending
import Messenger.Proof.Client.Trust

/-!
# Texts that nobody sends

A key response sends what is queued when it is handled. A `/pmess` asks for the key before it
queues the text, so with a fast server the response finds an empty queue, and the text that
is queued after it waits for a response that is not under way: until there is another
`/pmess` to the same user, it is not sent.

If every text is queued before the response to some request for its recipient is handled,
no text is ever left behind (`timely_run_leaves_nothing`).

The command and the response run on different threads, and `/pmess` is two steps: it asks, and then
it queues. The invariant is `Attended`: each text that is queued waits for a response that is still
to come, and each text that is half done has asked. The step to look at is the response. It answers
one request and empties one queue, so the other texts for the same user need no request any more,
and those for other users still have theirs.

What a response needs in order to send, keys that OpenSSL takes and texts that fit into a message,
is assumed once in `CanSend` and kept along.
-/

set_option autoImplicit false

namespace Messenger

open Messenger.Lib

/-- The response to a request for the key of `b`. -/
def keyReplyOf (ssl : OpenSSL) (b : Account) : Content :=
  .plain .response [[CommandType.getPubkey.toByte], b.name, b.edPublic ssl, b.signature ssl]
    (b.dhPublic ssl)

section Response

variable {ssl : OpenSSL} {a b : Account} {c : ClientContext}

/-- What a response needs to send the texts `texts`, which are queued for `b`. If there are any, the
    client has to be `online`; with nothing to send a closed connection does no harm. -/
structure CanSend (ssl : OpenSSL) (a b : Account) (online : Bool) (texts : List Bytes)
    (c : ClientContext) : Prop where
  encryption : c.encryption.IsOf a
  username : c.myUsername = a.name
  holds : c.encryption.Holds ssl b
  connected : c.connected = online
  online : texts ≠ [] → online = true
  short : ∀ text ∈ texts, text.length < 2 ^ 31

/-- **A response sends everything that is queued for the user.** The messages from that user that
    have waited for the key come after it, and whatever becomes of them the queues are as they
    are. -/
theorem keyReply_sends (hssl : ssl.Correct) (hc : c.encryption.IsOf a)
    (husername : c.myUsername = a.name) (ha : a.name.length ≤ 65535)
    (honline : c.mq.pending b.name ≠ [] → c.connected = true)
    (hshort : ∀ text ∈ c.mq.pending b.name, text.length < 2 ^ 31) {raw : Bytes}
    (hraw : Carries raw (keyReplyOf ssl b)) :
    ∃ c', c'.encryption.IsOf a ∧ c'.myUsername = a.name ∧ c'.connected = c.connected ∧
      c'.mq.pending b.name = [] ∧
      (∀ other ≠ b.name, c'.mq other = c.mq other) ∧
      finalState (MessagingClient.onTcpDataReceived ssl raw) c
        = finalState (ResponseMessageHandler.printPendingReceived ssl b.name) c' := by
  obtain ⟨m, hm, hcontent⟩ := hraw
  obtain ⟨htype, hmeta, hpayload⟩ := Message.of_content hcontent
  have hcode : m.getMeta 0 = [CommandType.getPubkey.toByte] := hmeta 0
  have hname : m.getMeta 1 = b.name := hmeta 1
  have hidentity : m.getMeta 2 = b.edPublic ssl := hmeta 2
  have hb : b.name.length ≤ 65535 := by
    rw [← hname]
    exact deserialize_entry_fits hm 1
  obtain ⟨encryption, hcache, hof, hholds⟩ := cachePublicKey_ok hssl hc b
  have hsend : ∀ text texts c', CanSend ssl a b c.connected (text :: texts) c' →
      ∃ c'', ResponseMessageHandler.sendPendingMessage ssl b.name ⟨text⟩ c' = .ok () c'' ∧
        CanSend ssl a b c.connected texts c'' ∧ c''.mq = c'.mq := by
    intro text texts c' h
    have hconnected : c.connected = true := h.online (by simp)
    obtain ⟨raw, ciphertext, encryption, hrun, hof, hholds, -, -⟩ := sendPendingMessage_ok hssl
      (h.connected.trans hconnected) h.encryption h.username h.holds ha hb
      (h.short text List.mem_cons_self)
    exact ⟨_, hrun, ⟨hof, h.username, hholds, h.connected, fun _ => hconnected,
      fun t ht => h.short t (List.mem_cons_of_mem text ht)⟩, rfl⟩
  -- the loop, with what a turn needs as its invariant
  obtain ⟨c', hloop, hsent, hnil, hothers⟩ := sendPending_loop
    (fun _ _ _ h _ => ⟨h.encryption, h.username, h.holds, h.connected, h.online, h.short⟩) hsend
    (c.mq.pending_length_lt b.name)
    (c := { c with encryption := encryption }) rfl ⟨hof, husername, hholds, rfl, honline, hshort⟩
  refine ⟨c', hsent.encryption, hsent.username, hsent.connected, hnil, hothers, ?_⟩
  rw [received_ok hm, clientDispatch_of_handler (by rw [htype]; rfl)]
  unfold ResponseMessageHandler.handleIncoming
  rw [hcode]
  show finalState (ResponseMessageHandler.handleGetPubkeyResponse ssl m) c = _
  unfold ResponseMessageHandler.handleGetPubkeyResponse
  rw [hname, hidentity, hpayload, finalState_bind_ok hcache, finalState_bind_ok hloop]

end Response

/-! ## Queued in time -/

/-- The response to a request for a key has the key of the one it was asked for. -/
def ThreadAction.Answers (ssl : OpenSSL) (acct : Bytes → Account) : ThreadAction → Prop
  | .respond _ recipient raw => Carries raw (keyReplyOf ssl (acct recipient))
  | _ => True

/-- A text is queued while the response to a request for its recipient is still to come. -/
def Threads.Timely (s : Threads) : ThreadAction → Prop
  | .ask _ _ payload => payload.length < 2 ^ 31
  | .queue => ∀ recipient payload, s.halfDone = some (recipient, payload) → recipient ∈ s.requests
  | .respond .. => True

/-- Every text is queued in time, and every response has the right key. -/
def Threads.TimelyRun (ssl : OpenSSL) (acct : Bytes → Account) : Threads → List ThreadAction → Prop
  | _, [] => True
  | s, a :: actions => s.Timely a ∧ a.Answers ssl acct ∧ TimelyRun ssl acct (s.step ssl a) actions

namespace Threads

variable {ssl : OpenSSL} {acct : Bytes → Account} {a : Account} {s : Threads}

/-- **The two halves are the command**, if nothing comes between them. So splitting it adds runs and
    takes none away. -/
theorem ask_queue (hidle : s.halfDone = none) (now : UInt64) (recipient payload : Bytes) :
    (s.ask now recipient payload).queue.client
      = finalState (PrivateMessageCommand.executeOnClient recipient payload)
          { s.client with now := now } := by
  unfold ask PrivateMessageCommand.executeOnClient
  rw [hidle]
  by_cases hempty : (recipient.isEmpty || payload.isEmpty) = true
  · rw [if_neg (by simp), if_pos hempty, if_pos hempty]
    rfl
  · rw [if_neg (by simp), if_neg hempty, if_neg hempty]
    cases hask : GetPubkeyCommand.executeOnClient recipient { s.client with now := now } with
    | error x c =>
      rw [finalState_bind_error hask]
      rfl
    | ok _ c =>
      rw [finalState_bind_ok hask]
      rfl

/-- A client of `a` on which nothing has been typed. -/
structure Fresh (a : Account) (s : Threads) : Prop where
  encryption : s.client.encryption.IsOf a
  username : s.client.myUsername = a.name
  name_fits : a.name.length ≤ 65535
  queues : ∀ recipient, s.client.mq.pending recipient = []
  halfDone : s.halfDone = none

/-- Whatever is queued waits for a response that is to come, and can be sent when it comes. A client
    without a connection does not get as far as to queue anything: it dies of the request. -/
structure Attended (a : Account) (s : Threads) : Prop where
  encryption : s.client.encryption.IsOf a
  username : s.client.myUsername = a.name
  name_fits : a.name.length ≤ 65535
  half_short : ∀ recipient payload, s.halfDone = some (recipient, payload) → payload.length < 2 ^ 31
  short : ∀ recipient, ∀ text ∈ s.client.mq.pending recipient, text.length < 2 ^ 31
  requested : ∀ recipient, s.client.mq.pending recipient ≠ [] → recipient ∈ s.requests
  half_online : s.halfDone ≠ none → s.client.connected = true
  online : ∀ recipient, s.client.mq.pending recipient ≠ [] → s.client.connected = true

theorem Fresh.attended (h : s.Fresh a) : s.Attended a where
  encryption := h.encryption
  username := h.username
  name_fits := h.name_fits
  half_short _ _ hhalf := by
    rw [h.halfDone] at hhalf
    cases hhalf
  short recipient text htext := by
    rw [h.queues] at htext
    cases htext
  requested recipient hpending := absurd (h.queues recipient) hpending
  half_online hhalf := absurd h.halfDone hhalf
  online recipient hpending := absurd (h.queues recipient) hpending

/-- What `ask` changes: there may be a text that is half done, and one more request, if the client
    has got as far as to ask. -/
theorem ask_cases (s : Threads) (now : UInt64) (recipient payload : Bytes) :
    let s' := s.ask now recipient payload
    s'.client.mq = s.client.mq ∧ s'.client.encryption = s.client.encryption ∧
      s'.client.myUsername = s.client.myUsername ∧ s'.client.connected = s.client.connected ∧
      s.requests ⊆ s'.requests ∧
      (s'.halfDone = s.halfDone ∨
        s'.halfDone = some (recipient, payload) ∧ s.client.connected = true) := by
  intro s'
  have hkeeps : Keeps (fun c : ClientContext => (c.mq, c.encryption, c.myUsername, c.connected))
      (GetPubkeyCommand.executeOnClient recipient) :=
    .sendMessage (fun _ _ => rfl) _ _ _ _
  have hsame {c : ClientContext} (h : (c.mq, c.encryption, c.myUsername, c.connected)
      = (s.client.mq, s.client.encryption, s.client.myUsername, s.client.connected)) :
      c.mq = s.client.mq ∧ c.encryption = s.client.encryption ∧
        c.myUsername = s.client.myUsername ∧ c.connected = s.client.connected := by
    simpa only [Prod.mk.injEq] using h
  unfold s' Threads.ask
  split
  · exact ⟨rfl, rfl, rfl, rfl, List.Subset.refl _, .inl rfl⟩
  · split
    · exact ⟨rfl, rfl, rfl, rfl, List.Subset.refl _, .inl rfl⟩
    · split
      · rename_i x c hask
        have hkept := hkeeps.of_error hask
        obtain ⟨hmq, hencryption, husername, hconnected⟩ := hsame hkept
        exact ⟨hmq, hencryption, husername, hconnected, List.Subset.refl _, .inl rfl⟩
      · rename_i c hask
        have hkept := hkeeps.of_ok hask
        obtain ⟨hmq, hencryption, husername, hconnected⟩ := hsame hkept
        have honline := connected_of_sendMessage hask
        refine ⟨hmq, hencryption, husername, hconnected, ?_, .inr ⟨rfl, honline⟩⟩
        dsimp only
        split
        · exact List.subset_append_left ..
        · exact List.Subset.refl _

/-- The first half of a command. It queues nothing, so all that is to be shown is about the text
    that is half done. -/
theorem Attended.ask (h : s.Attended a) (now : UInt64) {recipient payload : Bytes}
    (hshort : payload.length < 2 ^ 31) : (s.ask now recipient payload).Attended a := by
  obtain ⟨hmq, hencryption, husername, hconnected, hrequests, hhalf⟩ :=
    s.ask_cases now recipient payload
  refine ⟨?_, ?_, h.name_fits, fun r text hr => ?_, fun r text htext => ?_, fun r hr => ?_,
    fun hasked => ?_, fun r hr => ?_⟩
  · rw [hencryption]
    exact h.encryption
  · rw [husername]
    exact h.username
  · rcases hhalf with hhalf | ⟨hhalf, -⟩
    · rw [hhalf] at hr
      exact h.half_short r text hr
    · rw [hhalf] at hr
      obtain ⟨rfl, rfl⟩ := Prod.mk.inj (Option.some.inj hr)
      exact hshort
  · rw [hmq] at htext
    exact h.short r text htext
  · rw [hmq] at hr
    exact hrequests (h.requested r hr)
  · rw [hconnected]
    rcases hhalf with hhalf | ⟨-, honline⟩
    · exact h.half_online (hhalf ▸ hasked)
    · exact honline
  · rw [hconnected]
    rw [hmq] at hr
    exact h.online r hr

/-- The second half. Here, and only here, a text joins a queue, and that a response for it is still
    to come is what `Timely` says. -/
theorem Attended.queue (h : s.Attended a) (htimely : s.Timely .queue) : s.queue.Attended a := by
  unfold Threads.queue
  split
  · exact h
  · rename_i recipient payload hhalf
    have hpush := s.client.mq.pending_push recipient payload
    refine ⟨h.encryption, h.username, h.name_fits, fun r text hr => ?_, fun r text htext => ?_,
      fun r hr => ?_, fun hnone => absurd rfl hnone, fun _ _ => ?_⟩
    · cases hr
    · by_cases hsame : r = recipient
      · subst hsame
        rcases hpush with hpush | hpush
        · exact h.short r text (hpush ▸ htext)
        · dsimp only at htext
          rw [hpush, List.mem_append, List.mem_singleton] at htext
          rcases htext with htext | rfl
          · exact h.short r text htext
          · exact h.half_short r text hhalf
      · exact h.short r text (s.client.mq.pending_push_other recipient hsame payload ▸ htext)
    · by_cases hsame : r = recipient
      · subst hsame
        exact htimely r payload hhalf
      · exact h.requested r (s.client.mq.pending_push_other recipient hsame payload ▸ hr)
    · exact h.half_online (by simp [hhalf])

/-- A response. It empties the queue of its recipient, so the request that it answers is not needed
    by any text any more; for the others both the queue and the requests are the same. This is the
    hard case: that the queue is emptied takes everything the invariant says about its texts. -/
theorem Attended.respond (hssl : ssl.Correct) (hacct : ∀ name, (acct name).name = name)
    (h : s.Attended a) (now : UInt64) {recipient raw : Bytes}
    (hraw : Carries raw (keyReplyOf ssl (acct recipient))) :
    (s.respond ssl now recipient raw).Attended a := by
  unfold Threads.respond
  split
  · obtain ⟨c', hof, husername, hconnected, hnil, hothers, hrun⟩ :=
      keyReply_sends (c := { s.client with now := now }) hssl h.encryption h.username h.name_fits
        (h.online (acct recipient).name) (h.short (acct recipient).name) hraw
    rw [hacct] at hnil hothers hrun
    have hkeeps : Keeps (fun c : ClientContext => (c.mq, c.encryption, c.myUsername, c.connected))
        (ResponseMessageHandler.printPendingReceived ssl recipient) :=
      .printPendingReceived (fun _ _ => rfl) recipient
    have hkept := hkeeps.finalState c'
    rw [← hrun] at hkept
    simp only [Prod.mk.injEq] at hkept
    obtain ⟨hmq, hencryption, hname, honline⟩ := hkept
    have hpending (r : Bytes) (hr : r ≠ recipient) :
        c'.mq.pending r = s.client.mq.pending r := by
      unfold MessageQueue.pending
      rw [hothers r hr]
    have honline' := honline.trans hconnected
    refine ⟨?_, ?_, h.name_fits, h.half_short, fun r text htext => ?_, fun r hr => ?_,
      fun hhalf => honline'.trans (h.half_online hhalf), fun r hr => ?_⟩
    · dsimp only
      rw [hencryption]
      exact hof
    · dsimp only
      rw [hname]
      exact husername
    · dsimp only at htext
      rw [hmq] at htext
      by_cases hsame : r = recipient
      · rw [hsame, hnil] at htext
        cases htext
      · exact h.short r text (hpending r hsame ▸ htext)
    · dsimp only at hr
      rw [hmq] at hr
      have hother : r ≠ recipient := by
        rintro rfl
        exact hr hnil
      exact (List.mem_erase_of_ne hother).mpr (h.requested r (hpending r hother ▸ hr))
    · dsimp only at hr
      rw [hmq] at hr
      have hother : r ≠ recipient := by
        rintro rfl
        exact hr hnil
      exact honline'.trans (h.online r (hpending r hother ▸ hr))
  · exact h

/-- **One action** of either thread. -/
theorem Attended.step (hssl : ssl.Correct) (hacct : ∀ name, (acct name).name = name)
    (h : s.Attended a) {action : ThreadAction} (htimely : s.Timely action)
    (hanswers : action.Answers ssl acct) : (s.step ssl action).Attended a := by
  cases action with
  | ask now recipient payload => exact h.ask now htimely
  | queue => exact h.queue htimely
  | respond now recipient raw => exact h.respond hssl hacct now hanswers

/-- **A run**, up to any of its points. -/
theorem Attended.run (hssl : ssl.Correct) (hacct : ∀ name, (acct name).name = name)
    {actions reached : List ThreadAction} (hreached : reached <+: actions) (h : s.Attended a)
    (htimely : s.TimelyRun ssl acct actions) : (s.run ssl reached).Attended a := by
  induction reached generalizing s actions with
  | nil => exact h
  | cons action reached ih =>
    cases actions with
    | nil => cases List.prefix_nil.mp hreached
    | cons first rest =>
      obtain ⟨rfl, hrest⟩ := List.cons_prefix_cons.mp hreached
      obtain ⟨hfirst, hanswers, hlater⟩ := htimely
      exact ih hrest (h.step hssl hacct hfirst hanswers) hlater

end Threads

/-- **No text is left behind.** As long as every text is queued in time, a user whose key has
    been asked for and received has no text waiting. -/
theorem timely_run_leaves_nothing {ssl : OpenSSL} {acct : Bytes → Account} {a : Account}
    {s : Threads} (hssl : ssl.Correct) (hacct : ∀ name, (acct name).name = name) (hs : s.Fresh a)
    {actions : List ThreadAction} (htimely : s.TimelyRun ssl acct actions)
    {reached : List ThreadAction} (hreached : reached <+: actions) (recipient : Bytes)
    (hanswered : recipient ∉ (s.run ssl reached).requests) :
    (s.run ssl reached).client.mq.pending recipient = [] := by
  have hattended := hs.attended.run hssl hacct hreached htimely
  by_contra hpending
  exact hanswered (hattended.requested recipient hpending)

/-! ## Alice writes to Bob -/

/-- Everyone has the same keys. -/
def sameKeys (name : Bytes) : Account where
  name := name
  dhKey := List.replicate 32 0x4B
  identityKey := List.replicate 32 0x4B

/-- The response to a request for the key of Bob. -/
def bobsKey : Bytes := keyOfBob (List.replicate 32 0x4B) (List.replicate 64 0)

theorem bobsKey_carries : Carries bobsKey (keyReplyOf clearSSL (sameKeys (bytes "bob"))) := by
  have hdecoded : (Serializer.deserialize bobsKey).toOption.map Message.content
      = some (keyReplyOf clearSSL (sameKeys (bytes "bob"))) := by decide +kernel
  cases hm : Serializer.deserialize bobsKey with
  | error x =>
    rw [hm] at hdecoded
    cases hdecoded
  | ok m =>
    rw [hm] at hdecoded
    exact ⟨m, hm, Option.some.inj hdecoded⟩

/-- Alice, who has not typed anything. -/
def aliceTyping : Threads where
  client := { newcomer with myUsername := bytes "alice" }

theorem aliceTyping_fresh : aliceTyping.Fresh ⟨bytes "alice", bytes "alice", bytes "alice"⟩ where
  encryption := ⟨rfl, rfl, fun _ => ⟨_, rfl⟩⟩
  username := rfl
  name_fits := by decide
  queues _ := rfl
  halfDone := rfl

/-- The text is queued before the response is handled, and is sent. -/
theorem queued_in_time :
    let actions := [.ask 1 (bytes "bob") (bytes "hi"), .queue, .respond 2 (bytes "bob") bobsKey]
    (aliceTyping.run clearSSL actions).client.outgoing.length = 2 ∧
      (aliceTyping.run clearSSL actions).client.mq.pending (bytes "bob") = [] := by
  intro actions
  have htimely : aliceTyping.TimelyRun clearSSL sameKeys actions := by
    refine ⟨show (bytes "hi").length < 2 ^ 31 by decide, trivial, ?_, trivial, trivial,
      bobsKey_carries, trivial⟩
    intro recipient payload hhalf
    have hasked : (aliceTyping.ask 1 (bytes "bob") (bytes "hi")).halfDone
        = some (bytes "bob", bytes "hi") := by decide +kernel
    obtain ⟨rfl, rfl⟩ := Prod.mk.inj (Option.some.inj (hasked.symm.trans hhalf))
    show bytes "bob" ∈ (aliceTyping.ask 1 (bytes "bob") (bytes "hi")).requests
    decide +kernel
  exact ⟨by decide +kernel, timely_run_leaves_nothing clearSSL_correct (fun _ => rfl)
    aliceTyping_fresh htimely (List.prefix_refl _) (bytes "bob") (by decide +kernel)⟩

/-- The same, but the response is handled first. Nothing is half done and no response is to
    come, and the text is still there. -/
theorem queued_too_late :
    let actions := [.ask 1 (bytes "bob") (bytes "hi"), .respond 2 (bytes "bob") bobsKey, .queue]
    let s := aliceTyping.run clearSSL actions
    Carries bobsKey (keyReplyOf clearSSL (sameKeys (bytes "bob"))) ∧ s.halfDone = none ∧
      s.requests = [] ∧ s.client.mq.pending (bytes "bob") = [bytes "hi"] := by
  intro actions s
  exact ⟨bobsKey_carries, by decide +kernel, by decide +kernel, by decide +kernel⟩

end Messenger
