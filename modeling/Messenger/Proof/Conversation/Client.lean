import Mathlib.Data.List.Forall2
import Mathlib.Data.List.ReduceOption
import Messenger.Lib.Action
import Messenger.Proof.Client.Sending
import Messenger.Proof.Conversation.Packets

/-!
# A client in a conversation

The client of `p` plays its part of an exchange: its counter for the other and what it has
shown are those of the exchange (`Plays`). Each of the three things that happen to it is
shown to be what the exchange does: a `/pmess` is nothing yet, a key response sends
everything that is queued, and a private message is received. The last holds whether the
counter is the expected one or not.

The exchange is an abstract machine with two counters and two queues, of which one side is played
here. What the client does on its own account is hidden from it: the request for a key, the queue
of texts that wait for it, the cached keys. They are fields of `Plays`, since a response can only
send if the texts fit and the keys are there.

The private message is the one step in which both branches occur. The counter in it is compared
with the counter for its sender, and the exchange makes the same comparison on its own numbers; so
the two agree also where the message is dropped.
-/

set_option autoImplicit false

namespace Messenger

open Messenger.Lib

/-- A private message carries a 64-bit counter, which wraps around. -/
abbrev Talk := Exchange UInt64 Bytes

/-- The counter after one, which wraps. -/
def nextCounter (n : UInt64) : UInt64 := n + 1

variable (ssl : OpenSSL) (acct : Party → Account)

/-- The client of `p` plays its part of the exchange `e`. The counter and the screen are what the
    exchange knows of it; the other fields are what the client needs to go on playing. -/
structure Plays (p : Party) (c : ClientContext) (e : Talk) : Prop where
  encryption : c.encryption.IsOf (acct p)
  username : c.myUsername = (acct p).name
  connected : c.connected = true
  pendingMessages : c.pendingMessages (acct p.other).name = none
  texts_short : ∀ text ∈ c.mq.pending (acct p.other).name, text.length < 2 ^ 31
  counter : (c.messagesCounter (acct p.other).name).getD 0 = e.counter p
  ui : c.ui = (e.shown p).map (privateText (acct p.other).name)

variable {ssl acct} {p : Party} {c : ClientContext} {e : Talk}

theorem Plays.congr {e' : Talk} (hc : Plays acct p c e) (hcounter : e'.counter p = e.counter p)
    (hshown : e'.shown p = e.shown p) : Plays acct p c e' where
  encryption := hc.encryption
  username := hc.username
  connected := hc.connected
  pendingMessages := hc.pendingMessages
  texts_short := hc.texts_short
  counter := by rw [hcounter]; exact hc.counter
  ui := by rw [hshown]; exact hc.ui

/-! ## A key response sends what is queued -/

/-- What a run of the client adds to its outgoing messages: those of `items`. -/
def Outgoing (ssl : OpenSSL) (acct : Party → Account) (p : Party) (c c' : ClientContext)
    (items : List (Option (UInt64 × Bytes))) : Prop :=
  ∃ raws, c'.outgoing = c.outgoing ++ raws ∧ List.Forall₂ (ToServer ssl acct p) raws items

theorem Outgoing.nil (h : c.outgoing = []) {c' : ClientContext} (h' : c'.outgoing = []) :
    Outgoing ssl acct p c c' [] := ⟨[], by rw [h, h', List.append_nil], .nil⟩

theorem Outgoing.trans {c' c'' : ClientContext} {xs ys : List (Option (UInt64 × Bytes))}
    (h : Outgoing ssl acct p c c' xs) (h' : Outgoing ssl acct p c' c'' ys) :
    Outgoing ssl acct p c c'' (xs ++ ys) := by
  obtain ⟨raws, hraws, hxs⟩ := h
  obtain ⟨raws', hraws', hys⟩ := h'
  refine ⟨raws ++ raws', ?_, List.rel_append hxs hys⟩
  rw [hraws', hraws, List.append_assoc]

/-- **One queued text is one message of the exchange.** -/
theorem sendPendingMessage_run (h : Peers ssl acct) (hc : Plays acct p c e)
    (hkeys : c.encryption.Holds ssl (acct p.other)) {text : Bytes} (htext : text.length < 2 ^ 31) :
    ∃ c', ResponseMessageHandler.sendPendingMessage ssl (acct p.other).name ⟨text⟩ c = .ok () c' ∧
      Plays acct p c' (e.send nextCounter p text) ∧ c'.encryption.Holds ssl (acct p.other) ∧
      c'.mq = c.mq ∧ Outgoing ssl acct p c c' [some (e.counter p, text)] := by
  obtain ⟨raw, ciphertext, encryption, hrun, hof, hholds, hcarries, hsealed⟩ :=
    sendPendingMessage_ok h.correct hc.connected hc.encryption hc.username hkeys (h.names_fit p)
      (h.names_fit p.other) htext
  have hcounter : c.counters (acct p.other).name = e.counter p := hc.counter
  rw [hcounter] at hrun hsealed
  refine ⟨_, hrun, ?_, hholds, rfl, ?_⟩
  · exact {
      encryption := hof
      username := hc.username
      connected := hc.connected
      pendingMessages := hc.pendingMessages
      texts_short := hc.texts_short
      counter := by simp [Exchange.send, nextCounter]
      ui := hc.ui }
  · exact ⟨[raw], rfl, .cons (.message hcarries hsealed htext) .nil⟩

theorem Plays.withQueue (hc : Plays acct p c e) {mq : MessageQueue}
    (hmq : ∀ text ∈ mq.pending (acct p.other).name, text.length < 2 ^ 31) :
    Plays acct p { c with mq := mq } e :=
  { hc with texts_short := hmq }

/-- The loop on its way: of `texts`, which `c` had queued, it has not sent `rest` yet. It is the
    invariant for `sendPending_loop`. -/
def PartlySent (ssl : OpenSSL) (acct : Party → Account) (p : Party) (c : ClientContext) (e : Talk)
    (texts rest : List Bytes) (c' : ClientContext) : Prop :=
  ∃ sent items, texts = sent ++ rest ∧ Plays acct p c' (e.sendAll nextCounter p sent) ∧
    c'.encryption.Holds ssl (acct p.other) ∧ Outgoing ssl acct p c c' items ∧
    (e.sendAll nextCounter p sent).flight p = e.flight p ++ items.reduceOption

theorem PartlySent.send (h : Peers ssl acct) {texts : List Bytes}
    (hshort : ∀ text ∈ texts, text.length < 2 ^ 31) {text : Bytes} {rest : List Bytes}
    {c' : ClientContext} (hc : PartlySent ssl acct p c e texts (text :: rest) c') :
    ∃ c'', ResponseMessageHandler.sendPendingMessage ssl (acct p.other).name ⟨text⟩ c'
      = .ok () c'' ∧
      PartlySent ssl acct p c e texts rest c'' ∧ c''.mq = c'.mq := by
  obtain ⟨sent, items, htexts, hplays, hkeys, hout, hflight⟩ := hc
  have htext : text.length < 2 ^ 31 := hshort text (by simp [htexts])
  obtain ⟨c'', hsend, hplays', hkeys', hmq, hone⟩ := sendPendingMessage_run h hplays hkeys htext
  have hmore : e.sendAll nextCounter p (sent ++ [text])
      = (e.sendAll nextCounter p sent).send nextCounter p text := by
    simp [Exchange.sendAll]
  refine ⟨c'', hsend, ⟨sent ++ [text], _, by simp [htexts], ?_, hkeys', hout.trans hone, ?_⟩, hmq⟩
  · rw [hmore]
    exact hplays'
  · rw [hmore, List.reduceOption_append, ← List.append_assoc, ← hflight]
    simp [Exchange.send]

/-- **All queued texts are sent, in order, and the queue is empty afterwards.** The turns of
    the loop are enough. -/
theorem sendPending_run (h : Peers ssl acct) {texts : List Bytes} {turns : Nat}
    (hturns : texts.length < turns) (hc : Plays acct p c e)
    (hkeys : c.encryption.Holds ssl (acct p.other))
    (hqueue : c.mq.pending (acct p.other).name = texts) :
    ∃ c' items, ResponseMessageHandler.sendPending ssl (acct p.other).name turns c = .ok () c' ∧
      Plays acct p c' (e.sendAll nextCounter p texts) ∧
      c'.mq.pending (acct p.other).name = [] ∧ Outgoing ssl acct p c c' items ∧
      (e.sendAll nextCounter p texts).flight p = e.flight p ++ items.reduceOption := by
  have hshort := hc.texts_short
  rw [hqueue] at hshort
  have hstart : PartlySent ssl acct p c e texts texts c :=
    ⟨[], [], rfl, hc, hkeys, ⟨[], (List.append_nil _).symm, .nil⟩, (List.append_nil _).symm⟩
  have hrequeue : ∀ rest c' mq, PartlySent ssl acct p c e texts rest c' →
      MessageQueue.pending mq (acct p.other).name ⊆ c'.mq.pending (acct p.other).name →
        PartlySent ssl acct p c e texts rest { c' with mq := mq } := by
    rintro rest c' mq ⟨sent, items, htexts, hplays, hkeys, hout, hflight⟩ hfewer
    exact ⟨sent, items, htexts, hplays.withQueue fun t ht => hplays.texts_short t (hfewer ht),
      hkeys, hout, hflight⟩
  obtain ⟨c', hloop, ⟨sent, items, htexts, hplays, -, hout, hflight⟩, hnil, -⟩ :=
    sendPending_loop hrequeue (fun _ _ _ hc' => hc'.send h hshort) hturns hqueue hstart
  rw [List.append_nil] at htexts
  subst htexts
  exact ⟨c', items, hloop, hplays, hnil, hout, hflight⟩

/-! ## Typing -/

/-- **A `/pmess` sends no private message yet**: it asks for the key and queues the text. If the
    queue is full the text is gone, which the exchange never hears of. -/
theorem pmess_run (h : Peers ssl acct) (hc : Plays acct p c e) {text : Bytes}
    (htext : text.length < 2 ^ 31) :
    ∃ c' items, PrivateMessageCommand.executeOnClient (acct p.other).name text c = .ok () c' ∧
      Plays acct p c' e ∧ (c.mq.pending (acct p.other).name).length
        ≤ (c'.mq.pending (acct p.other).name).length ∧
      Outgoing ssl acct p c c' items ∧ items.reduceOption = [] := by
  unfold PrivateMessageCommand.executeOnClient
  by_cases hempty : ((acct p.other).name.isEmpty || text.isEmpty) = true
  · rw [if_pos hempty]
    exact ⟨c, [], rfl, hc, le_rfl, ⟨[], (List.append_nil _).symm, .nil⟩, rfl⟩
  · rw [if_neg hempty]
    have hname : (acct p.other).name ≠ [] := by
      intro hnil
      simp [hnil] at hempty
    obtain ⟨raw, hsend, hcarries⟩ := sendMessage_run hc.connected 2 (keyRequest_fits h p)
    have hpush := c.mq.pending_push (acct p.other).name text
    refine ⟨{ c with
      outgoing := c.outgoing ++ [raw], mq := c.mq.push (acct p.other).name text }, [none],
      bind_ok hsend, { hc with texts_short := ?_ }, ?_,
      ⟨[raw], rfl, .cons (.request hcarries hname) .nil⟩, rfl⟩
    · intro t ht
      rcases hpush with hpush | hpush
      · rw [hpush] at ht
        exact hc.texts_short t ht
      · rw [hpush, List.mem_append, List.mem_singleton] at ht
        rcases ht with ht | rfl
        · exact hc.texts_short t ht
        · exact htext
    · rcases hpush with hpush | hpush
      · rw [hpush]
      · rw [hpush, List.length_append]
        exact Nat.le_add_right ..

/-! ## The messages of the server -/

theorem printPendingReceived_run (ssl : OpenSSL) (hc : Plays acct p c e) :
    ∃ c', ResponseMessageHandler.printPendingReceived ssl (acct p.other).name c = .ok () c' ∧
      Plays acct p c' e ∧ c'.mq = c.mq ∧ c'.outgoing = c.outgoing := by
  refine ⟨_, printPendingReceived_nothing hc.pendingMessages, ?_, rfl, rfl⟩
  exact { hc with pendingMessages := Table.erase_self .. }

/-- **A key response sends everything that is queued.** The keys are cached, the loop sends, and the
    printing has nothing to do. -/
theorem onTcpDataReceived_keyReply (h : Peers ssl acct) (hc : Plays acct p c e) {raw : Bytes}
    (hraw : Carries raw (keyReply ssl acct p)) {texts : List Bytes}
    (hqueue : c.mq.pending (acct p.other).name = texts) :
    ∃ c' items, MessagingClient.onTcpDataReceived ssl raw c = .ok () c' ∧
      Plays acct p c' (e.sendAll nextCounter p texts) ∧
      c'.mq.pending (acct p.other).name = [] ∧ Outgoing ssl acct p c c' items ∧
      (e.sendAll nextCounter p texts).flight p = e.flight p ++ items.reduceOption := by
  obtain ⟨m, hm, hcontent⟩ := hraw
  obtain ⟨htype, hmeta, hpayload⟩ := Message.of_content hcontent
  have hcode : m.getMeta 0 = [CommandType.getPubkey.toByte] := hmeta 0
  have hname : m.getMeta 1 = (acct p.other).name := hmeta 1
  have hidentity : m.getMeta 2 = (acct p.other).edPublic ssl := hmeta 2
  obtain ⟨encryption, hcache, hof, hholds⟩ :=
    cachePublicKey_ok h.correct hc.encryption (acct p.other)
  have hc₁ : Plays acct p { c with encryption := encryption } e := { hc with encryption := hof }
  have hturns : texts.length < 4096 := by
    rw [← hqueue]
    exact c.mq.pending_length_lt _
  obtain ⟨c₂, items, hloop, hc₂, hnil, hout, hflight⟩ := sendPending_run h hturns hc₁ hholds hqueue
  obtain ⟨c₃, hprint, hc₃, hmq, houtgoing⟩ := printPendingReceived_run ssl hc₂
  refine ⟨c₃, items, ?_, hc₃, ?_, ?_, hflight⟩
  · have hhandle : ResponseMessageHandler.handleIncoming ssl m c = .ok () c₃ := by
      unfold ResponseMessageHandler.handleIncoming
      rw [hcode]
      show ResponseMessageHandler.handleGetPubkeyResponse ssl m c = _
      unfold ResponseMessageHandler.handleGetPubkeyResponse
      rw [hname, hidentity, hpayload]
      exact (bind_ok hcache).trans ((bind_ok hloop).trans hprint)
    exact onTcpDataReceived_of_handler hm (by rw [htype]; rfl) hhandle
  · rw [hmq]
    exact hnil
  · obtain ⟨raws, hraws, hitems⟩ := hout
    exact ⟨raws, houtgoing.trans hraws, hitems⟩

/-- The body of the `try` block: the keys are cached and the counter is looked up, and then
    it is the counter that decides. -/
theorem showEncryptedMessage_run (h : Peers ssl acct) (hc : Plays acct p c e)
    {ciphertext text : Bytes} {n : UInt64}
    (hsealed : (acct p.other).SealedFor ssl (acct p) n text ciphertext) :
    ∃ encryption, encryption.IsOf (acct p) ∧
      CipherMessageHandler.showEncryptedMessage ssl (acct p.other).name (acct p).name
        ((acct p.other).dhPublic ssl) ciphertext ((acct p.other).edPublic ssl)
        ((acct p.other).signature ssl) c =
      if n = e.counter p then .ok () { c with
        encryption := encryption
        messagesCounter := (c.messagesCounter.insert (acct p.other).name (e.counter p)).insert
          (acct p.other).name (nextCounter (e.counter p))
        ui := c.ui ++ [privateText (acct p.other).name text] }
      else .error (runtimeError "Replay attack detected or counter mismatch") { c with
        encryption := encryption
        messagesCounter := c.messagesCounter.insert (acct p.other).name (e.counter p) } := by
  obtain ⟨encryption, hcache, hof, hholds⟩ :=
    cachePublicKey_ok h.correct hc.encryption (acct p.other)
  refine ⟨encryption, hof, ?_⟩
  have hcounter := counterFor_run (acct p.other).name { c with encryption := encryption }
  have hn : (c.messagesCounter (acct p.other).name).getD 0 = e.counter p := hc.counter
  have hdecrypt := decryptFor_eq (c := { c with
      encryption := encryption
      messagesCounter := c.messagesCounter.insert (acct p.other).name (e.counter p) })
    h.correct hof hholds hsealed (e.counter p)
  simp only [hn] at hcounter
  unfold CipherMessageHandler.showEncryptedMessage
  refine (bind_ok hcache).trans ((bind_ok hcounter).trans ?_)
  -- `decrypt` compares the counters before it opens anything
  by_cases heq : n = e.counter p
  · rw [if_pos heq] at hdecrypt ⊢
    refine (bind_ok hdecrypt).trans ((bind_ok (advanceCounter_run ?_)).trans rfl)
    simp
  · rw [if_neg heq] at hdecrypt ⊢
    exact bind_error hdecrypt

/-- **A private message is received**: shown if its counter is the expected one, and dropped
    otherwise. -/
theorem onTcpDataReceived_forwarded (h : Peers ssl acct) (hc : Plays acct p c e) {raw : Bytes}
    {ciphertext text : Bytes} {n : UInt64} {rest : List (UInt64 × Bytes)}
    (hraw : Carries raw (forwardedMessage ssl acct p ciphertext))
    (hsealed : (acct p.other).SealedFor ssl (acct p) n text ciphertext)
    (hflight : e.flight p.other = (n, text) :: rest) :
    ∃ c', MessagingClient.onTcpDataReceived ssl raw c = .ok () c' ∧
      Plays acct p c' (e.receive nextCounter p) ∧ c'.mq = c.mq ∧ c'.outgoing = c.outgoing := by
  obtain ⟨m, hm, hcontent⟩ := hraw
  obtain ⟨htype, hmeta, hpayload⟩ := Message.of_content hcontent
  have hrecipient : m.getMeta 0 = (acct p).name := hmeta 0
  have hsender : m.getMeta 1 = (acct p.other).name := hmeta 1
  have hdh : m.getMeta 2 = (acct p.other).dhPublic ssl := hmeta 2
  have hidentity : m.getMeta 3 = (acct p.other).edPublic ssl := hmeta 3
  have hsignature : m.getMeta 4 = (acct p.other).signature ssl := hmeta 4
  have hhandler : ClientMessageDispatcher.handler ssl m.getType
      = some (CipherMessageHandler.handleIncoming ssl) := by
    rw [htype]
    rfl
  have hhandle : CipherMessageHandler.handleIncoming ssl m = catchWith ()
      (CipherMessageHandler.showEncryptedMessage ssl (acct p.other).name (acct p).name
        ((acct p.other).dhPublic ssl) ciphertext ((acct p.other).edPublic ssl)
        ((acct p.other).signature ssl)) := by
    unfold CipherMessageHandler.handleIncoming
    rw [hrecipient, hsender, hdh, hidentity, hsignature, hpayload]
    rfl
  obtain ⟨encryption, hof, hshow⟩ := showEncryptedMessage_run h hc hsealed
  unfold Exchange.receive
  simp only [hflight]
  by_cases heq : n = e.counter p
  · rw [if_pos heq] at hshow
    rw [if_pos heq]
    have hrun := (congrFun hhandle c).trans (catchWith_ok hshow ())
    exact ⟨_, onTcpDataReceived_of_handler hm hhandler hrun, { hc with
      encryption := hof
      counter := by simp [heq]
      ui := by simp [hc.ui] }, rfl, rfl⟩
  · rw [if_neg heq] at hshow
    rw [if_neg heq]
    have hrun := (congrFun hhandle c).trans (catchWith_thrown hshow ())
    exact ⟨_, onTcpDataReceived_of_handler hm hhandler hrun, { hc with
      encryption := hof
      counter := by simp }, rfl, rfl⟩

end Messenger
