import Messenger.Proof.Client.Crypto
import Messenger.Proof.Client.Handling

/-!
# No private message is accepted twice

A client keeps one counter for each name, for both directions and for files, and accepts a
private message only if the number in it is the counter of its sender. So the numbers of
what it accepts increase if nothing ever sets a counter back. Most of the code only makes
sure that a counter is there, which changes no value (`Keeps ClientContext.counters`); the
rest adds one to one counter (`Advances`). Adding one is not setting back as long as the
counter is below its limit, and two loops add more than once in one event: so the
assumption is about all contexts that a run goes through (`Visits`), those between two
turns of a loop among them.

The increments are easy to follow and the loops are not. `handle_get_pubkey_response` sends all
that was queued, and `/sendfile` sends one chunk after the other, each with a value of its own; a
counter that passes its limit in the middle of one of these is not seen in any state between two
events. `Passes` therefore names the loop stopped after any number of turns, and
`sendPending_grows` is the induction that uses it.

That accepted numbers increase then needs two facts: a message that is accepted has the counter of
that moment in it (`showEncryptedMessage_ok`), and after it the counter is larger.
-/

set_option autoImplicit false

namespace Messenger

open Messenger.Lib

/-- No counter has reached the largest value. The next increment would make it zero, and then an old
    message could be accepted again. -/
def ClientContext.BelowLimit (c : ClientContext) : Prop :=
  ∀ peer, (c.counters peer).toNat < 2 ^ 64 - 1

section

variable (ssl : OpenSSL)

/-- The contexts between the turns of a loop, for the two messages whose handling has one: the
    queued messages that a key sets free, and the chunks of a file. -/
inductive ClientContext.Passes (c : ClientContext) (msg : Message) : ClientContext → Prop
  | queued (turns : Nat) (hturns : turns ≤ 4096) (htype : msg.getType = .response)
      (hcode : (msg.getMeta 0).head?.map CommandType.ofByte = some .getPubkey) :
      Passes c msg (finalState (do
        cachePublicKey ssl (msg.getMeta 1) msg.getPayload (msg.getMeta 2)
        ResponseMessageHandler.sendPending ssl (msg.getMeta 1) turns) c)
  | chunks (turns : Nat) (content : Bytes) (htype : msg.getType = .command)
      (hcmd : msg.clientCommand = some .sendfile)
      (hfile : c.contentAt (msg.getMeta 2) = some content) :
      Passes c msg (finalState (do
        sendMessage [] 6 [msg.getMeta 1, msg.getMeta 2, writeU64 [] (UInt64.ofNat content.length),
          c.encryption.getDHBytes ssl, c.encryption.getIdentityBytes ssl, c.encryption.sign ssl]
          .fileStart
        ((content.toChunks (16 * 1024)).take turns).forM
          (SendFileCommand.sendChunk ssl (msg.getMeta 1) (msg.getMeta 2)))
        { c with opened := c.opened ++ [c.fileAt (msg.getMeta 2)] })

/-- The contexts that a run goes through: those between the events, and those between the turns of a
    loop within an event. -/
inductive ClientContext.Visits : ClientContext → List ClientEvent → ClientContext → Prop
  | here (c : ClientContext) (events : List ClientEvent) : Visits c events c
  | within {c c' : ClientContext} {e : ClientEvent} {now : UInt64} {msg : Message}
      (events : List ClientEvent) (hmsg : e.message = some (now, msg))
      (h : Passes ssl { c with now := now } msg c') : Visits c (e :: events) c'
  | later {c c' : ClientContext} {e : ClientEvent} {events : List ClientEvent}
      (h : Visits (c.step ssl e) events c') : Visits c (e :: events) c'

/-- The ciphertext of a private message in the name of `sender` that this event brings and the
    client accepts: the handler shows the plaintext. Whether `sender` has sent it is another
    matter. -/
def ClientContext.accepts (sender : Bytes) (c : ClientContext) : ClientEvent → Option Bytes
  | .received now rawData =>
    match Serializer.deserialize rawData with
    | .error _ => none
    | .ok msg =>
      if msg.getType = .cipherMessage ∧ msg.getMeta 1 = sender then
        match CipherMessageHandler.showEncryptedMessage ssl (msg.getMeta 1) (msg.getMeta 0)
          (msg.getMeta 2) msg.getPayload (msg.getMeta 3) (msg.getMeta 4) { c with now := now } with
        | .ok _ _ => some msg.getPayload
        | .error _ _ => none
      else none
  | _ => none

/-- The ciphertexts that are accepted in a run in the name of `sender`, in order. -/
def ClientContext.accepted (sender : Bytes) (c : ClientContext) : List ClientEvent → List Bytes
  | [] => []
  | e :: events =>
    (c.accepts ssl sender e).toList ++ ClientContext.accepted sender (c.step ssl e) events

/-- The number in a ciphertext, behind the nonce. -/
def embeddedCounter (ciphertext : Bytes) : UInt64 :=
  match readU64 ciphertext 12 with
  | .ok n => n
  | .error _ => 0

end

variable {ssl : OpenSSL} {c c' : ClientContext}

/-! ## What happens to the counters -/

/-- Nothing, or one is added to the counter of `peer`. -/
def Advances (peer : Bytes) (c c' : ClientContext) : Prop :=
  c'.counters = c.counters ∨
    c'.counters = Function.update c.counters peer (c.counters peer + 1)

/-- No counter is set back. -/
def Grows (c c' : ClientContext) : Prop := ∀ peer, c.counters peer ≤ c'.counters peer

theorem Grows.of_eq (h : c'.counters = c.counters) : Grows c c' := by
  intro peer
  rw [h]
  exact UInt64.le_refl _

theorem Grows.trans (c₁ c₂ c₃ : ClientContext) (h : Grows c₁ c₂) (h' : Grows c₂ c₃) :
    Grows c₁ c₃ := by
  intro peer
  exact UInt64.le_trans (h peer) (h' peer)

theorem lt_add_one_of_below {n : UInt64} (h : n.toNat < 2 ^ 64 - 1) : n < n + 1 := by
  rw [UInt64.lt_iff_toNat_lt, UInt64.toNat_add]
  simp
  omega

theorem Advances.grows {peer : Bytes} (h : Advances peer c c') (hlimit : c.BelowLimit) :
    Grows c c' := by
  rcases h with h | h
  · exact .of_eq h
  · intro other
    rw [h]
    by_cases hother : other = peer
    · subst hother
      rw [Function.update_self]
      exact UInt64.le_of_lt (lt_add_one_of_below (hlimit other))
    · rw [Function.update_of_ne hother]
      exact UInt64.le_refl _

/-- A computation that does to the counters what `Advances` says, however it ends. -/
abbrev AdvancesOnce {α : Type} (peer : Bytes) (x : ClientM α) : Prop :=
  ∀ c, Respects (Advances peer) (fun _ => True) x c

theorem advanceCounter_advances (peer : Bytes) : AdvancesOnce peer (advanceCounter peer) := by
  intro c
  exact .modify (.inr (counters_insert c peer _))

theorem AdvancesOnce.before {α β : Type} {peer : Bytes} {x : ClientM α} {f : α → ClientM β}
    (hx : AdvancesOnce peer x) (hf : ∀ a, Keeps ClientContext.counters (f a)) :
    AdvancesOnce peer (x >>= f) := by
  intro c
  refine ⟨?_, fun _ => trivial⟩
  have hstate := (hx c).state
  cases hr : x c with
  | ok a c₁ =>
    rw [finalState_ok hr] at hstate
    rw [finalState_bind_ok hr]
    unfold Advances
    rw [(hf a).finalState c₁]
    exact hstate
  | error e c₁ =>
    rw [finalState_error hr] at hstate
    rw [finalState_bind_error hr]
    exact hstate

theorem AdvancesOnce.after {α β : Type} {peer : Bytes} {x : ClientM α} {f : α → ClientM β}
    (hx : Keeps ClientContext.counters x) (hf : ∀ a, AdvancesOnce peer (f a)) :
    AdvancesOnce peer (x >>= f) := by
  intro c
  refine (hx c).bind (fun a s' _ => hf a s') (fun s' h => .inl h) ?_
  intro s' t hs ht
  unfold Advances at ht ⊢
  rw [hs] at ht
  exact ht

/-! ## The turns of the loops -/

/-- A queued text that is sent uses up one value of the counter of its recipient. If it cannot be
    sent, it uses none. -/
theorem sendPendingMessage_advances (ssl : OpenSSL) (username : Bytes)
    (msgToSend : OutgoingMessage) :
    AdvancesOnce username (ResponseMessageHandler.sendPendingMessage ssl username msgToSend) := by
  intro c
  refine .get_bind (AdvancesOnce.after (counterFor_keeps username) ?_ c)
  intro counter
  refine .after (.encryptFor (fun _ _ => rfl) _ _ _ _) ?_
  intro ciphertext
  refine .after (.sendMessage (fun _ _ => rfl) _ _ _ _) ?_
  intro u
  exact advanceCounter_advances username

/-- A chunk uses up one value, too, also if it cannot be sent: here the counter is advanced
    before. -/
theorem sendChunk_advances (recipient filename chunk : Bytes) :
    AdvancesOnce recipient (SendFileCommand.sendChunk ssl recipient filename chunk) := by
  refine .after (counterFor_keeps recipient) ?_
  intro counter c
  refine .get_bind (AdvancesOnce.after (.encryptFor (fun _ _ => rfl) _ _ _ _) ?_ c)
  intro cipherBytes
  exact (advanceCounter_advances recipient).before fun _ => .sendMessage (fun _ _ => rfl) _ _ _ _

/-- The queued messages, if no counter is at its limit before any turn. The induction is on the
    turns, and `hlimit` is about the loop stopped after any number of them; the first turn is split
    off by `hrun`. -/
theorem sendPending_grows (username : Bytes) (turns : Nat) (c : ClientContext)
    (hlimit : ∀ k ≤ turns,
      (finalState (ResponseMessageHandler.sendPending ssl username k) c).BelowLimit) :
    Grows c (finalState (ResponseMessageHandler.sendPending ssl username turns) c) := by
  induction turns generalizing c with
  | zero => exact .of_eq rfl
  | succ turns ih =>
    have hstart : c.BelowLimit := hlimit 0 (Nat.zero_le _)
    cases hfind : c.mq.findPending username with
    | mk pending mq =>
      cases pending with
      | none =>
        rw [finalState_ok (sendPending_none hfind turns)]
        exact .of_eq rfl
      | some msgToSend =>
        have hrun (k : Nat) : finalState (ResponseMessageHandler.sendPending ssl username (k + 1)) c
            = finalState
              (ResponseMessageHandler.sendPendingMessage ssl username msgToSend >>= fun _ =>
                ResponseMessageHandler.sendPending ssl username k) { c with mq := mq } :=
          finalState_congr (sendPending_some hfind k)
        have hadvances := (sendPendingMessage_advances ssl username msgToSend
          { c with mq := mq }).state
        rw [hrun]
        cases hsend : ResponseMessageHandler.sendPendingMessage ssl username msgToSend
            { c with mq := mq } with
        | ok u c₁ =>
          rw [finalState_ok hsend] at hadvances
          rw [finalState_bind_ok hsend]
          refine .trans c c₁ _ (hadvances.grows hstart) (ih c₁ ?_)
          intro k hk
          have hbetween := hlimit (k + 1) (Nat.succ_le_succ hk)
          rw [hrun, finalState_bind_ok hsend] at hbetween
          exact hbetween
        | error x c₁ =>
          rw [finalState_error hsend] at hadvances
          rw [finalState_bind_error hsend]
          exact hadvances.grows hstart

theorem Grows.after {α β : Type} {x : ClientM α} {f : α → ClientM β}
    (hx : Keeps ClientContext.counters x)
    (hf : ∀ a c', x c = .ok a c' → Grows c' (finalState (f a) c')) :
    Grows c (finalState (x >>= f) c) := by
  have hkeeps := hx.finalState c
  cases hr : x c with
  | ok a c₁ =>
    rw [finalState_ok hr] at hkeeps
    rw [finalState_bind_ok hr]
    exact .trans c c₁ _ (.of_eq hkeeps) (hf a c₁ hr)
  | error e c₁ =>
    rw [finalState_error hr] at hkeeps
    rw [finalState_bind_error hr]
    exact .of_eq hkeeps

theorem Grows.before {α β : Type} {x : ClientM α} {f : α → ClientM β}
    (hx : Grows c (finalState x c)) (hf : ∀ a, Keeps ClientContext.counters (f a)) :
    Grows c (finalState (x >>= f) c) := by
  cases hr : x c with
  | ok a c₁ =>
    rw [finalState_ok hr] at hx
    rw [finalState_bind_ok hr]
    exact .trans c c₁ _ hx (.of_eq ((hf a).finalState c₁))
  | error e c₁ =>
    rw [finalState_error hr] at hx
    rw [finalState_bind_error hr]
    exact hx

/-! ## The handlers -/

/-- The response that sets queued messages free. What is assumed of the contexts between the turns
    is what `Passes.queued` names. -/
theorem handleGetPubkeyResponse_grows {msg : Message} (htype : msg.getType = .response)
    (hcode : (msg.getMeta 0).head?.map CommandType.ofByte = some .getPubkey)
    (hlimit : ∀ c', c.Passes ssl msg c' → c'.BelowLimit) :
    Grows c (finalState (ResponseMessageHandler.handleGetPubkeyResponse ssl msg) c) := by
  refine .after (.cachePublicKey (fun _ _ => rfl) _ _ _) ?_
  intro u c₁ hcache
  refine .before (sendPending_grows _ 4096 c₁ ?_) fun _ =>
    .printPendingReceived (fun _ _ => rfl) _
  intro k hk
  have hbetween := hlimit _ (.queued k hk htype hcode)
  rw [finalState_bind_ok hcache] at hbetween
  exact hbetween

theorem response_grows {msg : Message} (htype : msg.getType = .response)
    (hlimit : ∀ c', c.Passes ssl msg c' → c'.BelowLimit) :
    Grows c (finalState (ResponseMessageHandler.handleIncoming ssl msg) c) := by
  unfold ResponseMessageHandler.handleIncoming
  cases hmeta : msg.getMeta 0 with
  | nil => exact .of_eq rfl
  | cons code rest =>
    dsimp only
    split
    · rename_i hcode
      apply handleGetPubkeyResponse_grows htype _ hlimit
      rw [hmeta, List.head?_cons, Option.map_some, hcode]
    · exact .of_eq rfl

theorem sendfile_grows {msg : Message} (htype : msg.getType = .command)
    (hcmd : msg.clientCommand = some .sendfile)
    (hlimit : ∀ c', c.Passes ssl msg c' → c'.BelowLimit) :
    Grows c (finalState (SendFileCommand.executeOnClient ssl (msg.getMeta 1) (msg.getMeta 2))
      c) := by
  cases hfile : c.contentAt (msg.getMeta 2) with
  | none =>
    rw [finalState_ok (sendFile_of_none hfile)]
    exact .of_eq rfl
  | some content =>
    rw [finalState_congr (sendFile_of_some hfile)]
    refine Grows.after (c := { c with opened := c.opened ++ [c.fileAt (msg.getMeta 2)] })
      (.sendMessage (fun _ _ => rfl) _ _ _ _) ?_
    intro u c₁ hstart
    refine .before ?_ fun _ => .sendMessage (fun _ _ => rfl) _ _ _ _
    -- What a turn relies on is what is assumed of the contexts between the turns.
    have hturns : Respects Grows (fun _ => True) ((content.toChunks (16 * 1024)).forM
        (SendFileCommand.sendChunk ssl (msg.getMeta 1) (msg.getMeta 2))) c₁ := by
      apply Respects.forM_between (P := ClientContext.BelowLimit) (fun c => .of_eq rfl) Grows.trans
      · intro chunk c hc
        exact (sendChunk_advances _ _ chunk c).mono fun _ h => h.grows hc
      · intro k
        have hbetween := hlimit _ (.chunks k content htype hcmd hfile)
        rw [finalState_bind_ok hstart] at hbetween
        exact hbetween
    exact hturns.state

theorem command_grows {msg : Message} (htype : msg.getType = .command)
    (hlimit : ∀ c', c.Passes ssl msg c' → c'.BelowLimit) :
    Grows c (finalState (ClientCommandBus.dispatch ssl msg) c) := by
  cases hcmd : msg.clientCommand with
  | none =>
    rw [clientBusDispatch_of_none hcmd]
    exact .of_eq rfl
  | some cmd =>
    rw [clientBusDispatch_of_command hcmd]
    by_cases hfile : cmd = .sendfile
    · subst hfile
      exact sendfile_grows htype hcmd hlimit
    · have hkeeps : Keeps ClientContext.counters (cmd.execute ssl msg) :=
        .execute (fun _ _ => rfl) (fun _ _ => rfl) (fun _ _ => rfl) (fun _ _ => rfl) hfile msg
      exact .of_eq (hkeeps.finalState c)

/-- A private message: the counter goes up after the decryption, so only if it opens. -/
theorem showEncryptedMessage_advances
    (sender recipient pubkeyBytes payload identityKey signature : Bytes) :
    AdvancesOnce sender (CipherMessageHandler.showEncryptedMessage ssl sender recipient pubkeyBytes
      payload identityKey signature) := by
  refine .after (.cachePublicKey (fun _ _ => rfl) _ _ _) fun _ => ?_
  refine .after (counterFor_keeps sender) fun counter => ?_
  refine .after (.decryptFor _ _ _ _ _) fun plaintext => ?_
  exact (advanceCounter_advances sender).before fun _ => .uiCallback (fun _ _ => rfl) _

/-- What the handler catches does not undo the increment. -/
theorem cipherMessage_advances (ssl : OpenSSL) (msg : Message) :
    AdvancesOnce (msg.getMeta 1) (CipherMessageHandler.handleIncoming ssl msg) := by
  intro c
  refine ⟨?_, fun _ => trivial⟩
  rw [CipherMessageHandler.handleIncoming, CipherMessageHandler.processEncryptedMessage,
    finalState_catchWith]
  exact (showEncryptedMessage_advances _ _ _ _ _ _ c).state

/-- A chunk looks at the counter of its recipient and leaves it as it is. -/
theorem fileChunk_keeps (msg : Message) :
    Keeps ClientContext.counters (ClientFileChunkHandler.handleIncoming ssl msg) := by
  refine .get_bind fun c => ?_
  dsimp only
  split
  · exact .pure _
  · refine .bind (counterFor_keeps _) fun counter => ?_
    refine .bind (.cachePublicKey (fun _ _ => rfl) _ _ _) fun _ => ?_
    exact .bind (.decryptFor _ _ _ _ _) fun _ => .modify fun _ => rfl

/-! ## One event -/

/-- All handlers. Only three of them do anything to the counters. -/
theorem handler_grows {msg : Message} {handle : Message → ClientM Unit}
    (h : ClientMessageDispatcher.handler ssl msg.getType = some handle) (hc : c.BelowLimit)
    (hlimit : ∀ c', c.Passes ssl msg c' → c'.BelowLimit) : Grows c (finalState (handle msg) c) := by
  unfold ClientMessageDispatcher.handler at h
  split at h
  · cases h
    exact .of_eq ((Keeps.uiCallback (fun _ _ => rfl) _).finalState c)
  · cases h
    rename_i htype
    exact command_grows htype hlimit
  · cases h
    rename_i htype
    exact response_grows htype hlimit
  · cases h
    exact (cipherMessage_advances ssl msg c).state.grows hc
  · cases h
    exact .of_eq ((Keeps.fileStart (fun _ _ _ => rfl) msg).finalState c)
  · cases h
    exact .of_eq ((fileChunk_keeps msg).finalState c)
  · cases h
    exact .of_eq ((Keeps.fileEnd (fun _ _ _ => rfl) msg).finalState c)
  · cases h

/-- **No event sets a counter back**, below the limit. -/
theorem step_grows {e : ClientEvent} (hc : c.BelowLimit)
    (hlimit : ∀ now msg c', e.message = some (now, msg) →
      ClientContext.Passes ssl { c with now := now } msg c' → c'.BelowLimit) :
    Grows c (c.step ssl e) := by
  cases hmsg : e.message with
  | none => exact .of_eq (step_of_no_message (fun _ _ => rfl) (fun _ _ => rfl) hmsg c)
  | some event =>
    obtain ⟨now, msg⟩ := event
    rw [step_of_message hmsg]
    cases hhandler : ClientMessageDispatcher.handler ssl msg.getType with
    | none =>
      rw [clientDispatch_unhandled hhandler]
      exact .of_eq rfl
    | some handle =>
      rw [clientDispatch_of_handler hhandler]
      exact handler_grows (c := { c with now := now }) hhandler hc fun c' h =>
        hlimit now msg c' hmsg h

/-! ## What is accepted -/

/-- A ciphertext that is accepted has the counter of its sender in it, which goes up by one. Taking
    in the keys and making sure of the counter change no value before. -/
theorem showEncryptedMessage_ok
    {sender recipient pubkeyBytes payload identityKey signature : Bytes}
    (h : CipherMessageHandler.showEncryptedMessage ssl sender recipient pubkeyBytes payload
      identityKey signature c = .ok () c') :
    readU64 payload 12 = .ok (c.counters sender) ∧ c'.counters sender = c.counters sender + 1 := by
  obtain ⟨_, c₁, hcache, h₁⟩ := bind_eq_ok h
  obtain ⟨counter, c₂, hcounter, h₂⟩ := bind_eq_ok h₁
  obtain ⟨plaintext, c₃, hdecrypt, hshow⟩ := bind_eq_ok h₂
  have hcached : c₁.counters = c.counters := by
    rw [← finalState_ok hcache]
    exact (Keeps.cachePublicKey (fun _ _ => rfl) _ _ _).finalState c
  obtain ⟨table, hcounter', hcounters⟩ := counterFor_ok sender c₁
  generalize { c₁ with messagesCounter := table } = c₂' at hcounter' hcounters
  rw [hcounter'] at hcounter
  cases hcounter
  have hopened : c₂.encryption.decryptFor ssl sender recipient payload signature
      (c₁.counters sender)
      = .ok plaintext ∧ c₃ = c₂ := by
    unfold decryptFor at hdecrypt
    rw [get_bind_run] at hdecrypt
    cases hresult : c₂.encryption.decryptFor ssl sender recipient payload signature
        (c₁.counters sender) with
    | error x =>
      rw [hresult] at hdecrypt
      cases hdecrypt
    | ok plaintext' =>
      rw [hresult] at hdecrypt
      cases hdecrypt
      exact ⟨rfl, rfl⟩
  obtain ⟨hopened, rfl⟩ := hopened
  refine ⟨hcached ▸ decryptFor_counter hopened, ?_⟩
  cases hshow
  have hadded := congrFun (counters_insert c₃ sender (c₃.counters sender + 1)) sender
  rw [Function.update_self] at hadded
  refine Eq.trans hadded ?_
  rw [hcounters, hcached]

/-- The same from the event on. That the handler shows the plaintext is all that `accepts` asks for,
    so the event's effect on the context is that of the handler. -/
theorem accepts_eq_some {sender : Bytes} {e : ClientEvent} {ciphertext : Bytes}
    (h : c.accepts ssl sender e = some ciphertext) :
    readU64 ciphertext 12 = .ok (c.counters sender) ∧
      (c.step ssl e).counters sender = c.counters sender + 1 := by
  cases e with
  | received now raw =>
    unfold ClientContext.accepts at h
    dsimp only at h
    split at h
    · cases h
    · rename_i msg hmsg
      split at h
      · rename_i hcipher
        split at h
        · rename_i u c' hshow
          obtain ⟨htype, rfl⟩ := hcipher
          cases h
          have hhandler : ClientMessageDispatcher.handler ssl msg.getType
              = some (CipherMessageHandler.handleIncoming ssl) := by
            rw [htype]
            rfl
          have hstep : c.step ssl (.received now raw) = c' := by
            refine (received_ok hmsg _).trans ((clientDispatch_of_handler hhandler _).trans ?_)
            exact (finalState_catchWith () _ _).trans (finalState_ok hshow)
          rw [hstep]
          exact showEncryptedMessage_ok (c := { c with now := now }) hshow
        · cases h
      · cases h
  | typed now line => cases h
  | written path content => cases h

variable {sender : Bytes}

theorem accepted_counter {events : List ClientEvent} {ciphertext : Bytes}
    (h : ciphertext ∈ c.accepted ssl sender events) : ∃ n, readU64 ciphertext 12 = .ok n := by
  induction events generalizing c with
  | nil => cases h
  | cons e events ih =>
    rcases List.mem_append.mp h with hnow | hlater
    · exact ⟨_, (accepts_eq_some (Option.mem_toList.mp hnow)).1⟩
    · exact ih hlater

/-- By induction on the events. What is accepted first has the counter of now in it, and the later
    ones start from a counter that is no smaller. -/
theorem counters_le_of_accepted {events : List ClientEvent}
    (hlimit : ∀ c', c.Visits ssl events c' → c'.BelowLimit) {ciphertext : Bytes}
    (h : ciphertext ∈ c.accepted ssl sender events) :
    c.counters sender ≤ embeddedCounter ciphertext := by
  induction events generalizing c with
  | nil => cases h
  | cons e events ih =>
    have hgrows : Grows c (c.step ssl e) := step_grows (hlimit c (.here c _))
      fun now msg c' hmsg hpass => hlimit c' (.within events hmsg hpass)
    rcases List.mem_append.mp h with hnow | hlater
    · obtain ⟨hread, -⟩ := accepts_eq_some (Option.mem_toList.mp hnow)
      unfold embeddedCounter
      rw [hread]
      exact UInt64.le_refl _
    · exact UInt64.le_trans (hgrows sender) (ih (fun c' hc' => hlimit c' (.later hc')) hlater)

/-- **The numbers increase.** After one is accepted the counter is larger than it, and by the lemma
    before, so are all later ones. -/
theorem accepted_pairwise {events : List ClientEvent}
    (hlimit : ∀ c', c.Visits ssl events c' → c'.BelowLimit) :
    ((c.accepted ssl sender events).map embeddedCounter).Pairwise (· < ·) := by
  induction events generalizing c with
  | nil => exact .nil
  | cons e events ih =>
    have hlater : ∀ c', (c.step ssl e).Visits ssl events c' → c'.BelowLimit := by
      intro c' hc'
      exact hlimit c' (.later hc')
    unfold ClientContext.accepted
    cases haccepts : c.accepts ssl sender e with
    | none => exact ih hlater
    | some ciphertext =>
      obtain ⟨hread, hstep⟩ := accepts_eq_some haccepts
      have hnumber : embeddedCounter ciphertext = c.counters sender := by
        unfold embeddedCounter
        rw [hread]
      refine List.pairwise_cons.mpr ⟨?_, ih hlater⟩
      intro n hn
      obtain ⟨other, hother, rfl⟩ := List.mem_map.mp hn
      have hle := counters_le_of_accepted hlater hother
      rw [hstep] at hle
      rw [hnumber]
      have hlt := lt_add_one_of_below (hlimit c (.here c _) sender)
      exact UInt64.lt_of_lt_of_le hlt hle

/-- **The numbers in the private messages that a client accepts in one name increase**, so it
    accepts no ciphertext twice. -/
theorem accepted_counters_increase (ssl : OpenSSL) (c : ClientContext) (events : List ClientEvent)
    (sender : Bytes) (hlimit : ∀ c', c.Visits ssl events c' → c'.BelowLimit) :
    (∀ ciphertext ∈ c.accepted ssl sender events, ∃ n, readU64 ciphertext 12 = .ok n) ∧
      ((c.accepted ssl sender events).map embeddedCounter).Pairwise (· < ·) ∧
      (c.accepted ssl sender events).Nodup := by
  refine ⟨fun _ h => accepted_counter h, accepted_pairwise hlimit, ?_⟩
  refine (List.pairwise_map.mp (accepted_pairwise hlimit)).imp ?_
  intro ciphertext other hlt heq
  subst heq
  exact UInt64.lt_irrefl _ hlt

theorem Advances.toNat_le {peer : Bytes} (h : Advances peer c c') {n : Nat}
    (hc : ∀ other, (c.counters other).toNat ≤ n) (other : Bytes) :
    (c'.counters other).toNat ≤ n + 1 := by
  rcases h with h | h
  · rw [h]
    exact Nat.le_succ_of_le (hc other)
  · rw [h]
    by_cases hother : other = peer
    · subst hother
      rw [Function.update_self, UInt64.toNat_add]
      exact (Nat.mod_le _ _).trans (Nat.succ_le_succ (hc other))
    · rw [Function.update_of_ne hother]
      exact Nat.le_succ_of_le (hc other)

/-- An event that brings a private message. -/
def ClientEvent.IsPrivate (e : ClientEvent) : Prop :=
  ∃ now msg, e.message = some (now, msg) ∧ msg.getType = .cipherMessage

/-- Private messages alone need as many values as there are messages. -/
theorem belowLimit_of_private {events : List ClientEvent} (hevents : ∀ e ∈ events, e.IsPrivate)
    {n : Nat} (hn : n + events.length < 2 ^ 64 - 1)
    (hc : ∀ other, (c.counters other).toNat ≤ n) (h : c.Visits ssl events c') : c'.BelowLimit := by
  induction events generalizing c n with
  | nil =>
    cases h
    intro other
    exact (hc other).trans_lt hn
  | cons e events ih =>
    obtain ⟨now, msg, hmessage, htype⟩ := hevents e List.mem_cons_self
    rw [List.length_cons] at hn
    cases h with
    | here =>
      intro other
      exact (hc other).trans_lt (by omega)
    | within _ hmessage' hpass =>
      -- There is no loop in the handling of a private message.
      rw [hmessage] at hmessage'
      obtain ⟨rfl, rfl⟩ := hmessage'
      cases hpass with
      | queued _ _ hresponse _ => cases htype.symm.trans hresponse
      | chunks _ _ hcommand _ _ => cases htype.symm.trans hcommand
    | later h =>
      have hhandler : ClientMessageDispatcher.handler ssl msg.getType
          = some (CipherMessageHandler.handleIncoming ssl) := by
        rw [htype]
        rfl
      have hadvances := (cipherMessage_advances ssl msg { c with now := now }).state
      rw [← clientDispatch_of_handler hhandler, ← step_of_message hmessage] at hadvances
      refine ih (fun e he => hevents e (List.mem_cons_of_mem _ he)) (n := n + 1) (by omega) ?_ h
      exact hadvances.toNat_le hc

/-- A private message from Alice to Bob, the first. -/
def firstMessage : Message where
  header := { type := .cipherMessage }
  metalen := 5
  metadata := [bytes "bob", bytes "alice", clearSSL.dhPublic [1], clearSSL.edPublic [2],
    clearSSL.edSign [2] []]
  payload := List.replicate 20 0 ++ (bytes "hi" ++ List.replicate 16 0)

/-- Bob gets the message twice. -/
def replay : List ClientEvent :=
  [.received 1 (Serializer.serialize firstMessage), .received 2 (Serializer.serialize firstMessage)]

theorem replay_private : ∀ e ∈ replay, e.IsPrivate := by
  have htype : (Serializer.deserialize (Serializer.serialize firstMessage)).toOption.map
      Message.getType = some .cipherMessage := by decide +kernel
  obtain ⟨msg, hmsg, htype⟩ := Option.map_eq_some_iff.mp htype
  intro e he
  simp only [replay, List.mem_cons, List.not_mem_nil, or_false] at he
  rcases he with rfl | rfl
  · exact ⟨1, msg, by rw [ClientEvent.message, hmsg]; rfl, htype⟩
  · exact ⟨2, msg, by rw [ClientEvent.message, hmsg]; rfl, htype⟩

theorem replayed_message_accepted_once :
    let bob : ClientContext :=
      { encryption := { dhKey := [3], identityKey := [4], entropy := fun _ => none } }
    bob.accepted clearSSL (bytes "alice") replay = [firstMessage.payload] ∧
      (bob.accepted clearSSL (bytes "alice") replay).Nodup := by
  intro bob
  refine ⟨by decide +kernel, (accepted_counters_increase clearSSL bob replay _ ?_).2.2⟩
  have hstart : ∀ other, (bob.counters other).toNat ≤ 0 := fun _ => Nat.le_refl 0
  intro c' hc'
  exact belowLimit_of_private replay_private (by decide) hstart hc'

end Messenger
