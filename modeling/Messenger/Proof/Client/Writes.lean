import Mathlib.Logic.Relation
import Messenger.Proof.Client.Crypto
import Messenger.Proof.Client.Handling

/-!
# What the handling of a message can write

All that happens to the context of a client is a sequence of single assignments
(`ClientContext.Write`), so what no assignment breaks holds along every run. Along the same
lines: a handler fails by throwing, but for two places. The handler of `FileStart` reads eight
bytes of an entry that may be shorter, and the handler of a key response dereferences the
counter of a peer that may have none. `handler_writes` leaves these two as hypotheses.

How a computation may fail is a parameter `E`, because the same walk through the handlers
is used twice: once to say which contexts can be reached, where any failure is fine, and
once to say that nothing goes out of bounds, where one kind is not.
-/

set_option autoImplicit false

namespace Messenger

open Messenger.Lib

/-- One assignment to the context. The keys are not simply replaced: what happens to them is one of
    two operations of the encryption service, and this is where invariants about keys come from. -/
inductive ClientContext.Write (ssl : OpenSSL) (c : ClientContext) : ClientContext → Prop
  | outgoing (packets : List Bytes) : Write ssl c { c with outgoing := packets }
  | ui (lines : List Bytes) : Write ssl c { c with ui := lines }
  | mq (mq : MessageQueue) : Write ssl c { c with mq := mq }
  | myUsername (name : Bytes) : Write ssl c { c with myUsername := name }
  | connected (connected : Bool) : Write ssl c { c with connected := connected }
  | messagesCounter (table : Table Bytes UInt64) : Write ssl c { c with messagesCounter := table }
  | files (disk : Table Bytes Bytes) (files : Table Bytes OutFile) :
      Write ssl c { c with disk := disk, pendingFiles := files }
  | opened (paths : List Bytes) : Write ssl c { c with opened := paths }
  | now (now : UInt64) : Write ssl c { c with now := now }
  | received (username : Bytes) :
      Write ssl c { c with pendingMessages := c.pendingMessages.erase username }
  | cached (username pubkey identityKey : Bytes) : Write ssl c { c with
      encryption := (c.encryption.cachePublicKey ssl username pubkey identityKey).2 }
  | encrypted (sender username plaintext : Bytes) (counter : UInt64) : Write ssl c { c with
      encryption := (c.encryption.encryptFor ssl sender username plaintext counter).2 }

/-- Any number of assignments. -/
abbrev ClientContext.Writes (ssl : OpenSSL) : ClientContext → ClientContext → Prop :=
  Relation.ReflTransGen (ClientContext.Write ssl)

variable {ssl : OpenSSL} {E : Failure → Prop} {c c' : ClientContext}

/-! ## Two things that no assignment changes -/

/-- Nothing is ever put among the messages that wait for a key. They are only ever erased. -/
theorem ClientContext.Writes.pendingMessages_empty (h : c.Writes ssl c')
    (hc : c.pendingMessages = .empty) : c'.pendingMessages = .empty := by
  induction h with
  | refl => exact hc
  | tail _ hwrite ih =>
    cases hwrite with
    | received username =>
      dsimp only
      rw [ih]
      funext name
      by_cases hname : name = username
      · rw [hname, Table.erase_self]
        rfl
      · rw [Table.erase_of_ne hname]
    | _ => exact ih

theorem ClientContext.Writes.dhKey (h : c.Writes ssl c') :
    c'.encryption.dhKey = c.encryption.dhKey := by
  induction h with
  | refl => rfl
  | tail _ hwrite ih =>
    rw [← ih]
    cases hwrite with
    | cached username pubkey identityKey =>
      dsimp only
      unfold EncryptionService.cachePublicKey
      split
      · rfl
      · split <;> rfl
    | encrypted sender username plaintext counter =>
      dsimp only
      unfold EncryptionService.encryptFor
      split
      · rfl
      · dsimp only
        split <;> rfl
    | _ => rfl

/-! ## Computations -/

/-- The computation is made of assignments, and fails only as `E` allows. -/
abbrev OnlyWrites {α : Type} (ssl : OpenSSL) (E : Failure → Prop) (x : ClientM α) : Prop :=
  ∀ c, Respects (ClientContext.Writes ssl) E x c

namespace OnlyWrites

variable {α β : Type}

theorem pure (a : α) : OnlyWrites ssl E (Pure.pure a : ClientM α) := fun _ => .pure a .refl

theorem throw {e : Failure} (he : E e) : OnlyWrites ssl E (MonadExcept.throw e : ClientM α) :=
  fun _ => .throw .refl he

theorem modify {u : ClientContext → ClientContext} (h : ∀ c, ClientContext.Write ssl c (u c)) :
    OnlyWrites ssl E (modify u : ClientM PUnit) := fun c => .modify (.single (h c))

theorem get_bind {f : ClientContext → ClientM α} (h : ∀ c, OnlyWrites ssl E (f c)) :
    OnlyWrites ssl E (get >>= f) := fun c => .get_bind (h c c)

theorem get_set_bind {u : ClientContext → ClientContext} {f : ClientContext → PUnit → ClientM α}
    (hu : ∀ c, ClientContext.Write ssl c (u c)) (hf : ∀ c, OnlyWrites ssl E (f c ⟨⟩)) :
    OnlyWrites ssl E (get >>= fun c => set (u c) >>= f c) := fun c =>
  .get_bind (.set_bind (hf c (u c)) fun _ h => .head (hu c) h)

theorem bind {x : ClientM α} {f : α → ClientM β} (hx : OnlyWrites ssl E x)
    (hf : ∀ a, OnlyWrites ssl E (f a)) : OnlyWrites ssl E (x >>= f) := fun c =>
  (hx c).bind (fun a c' _ => hf a c') (fun _ h => h) fun _ _ h h' => h.trans h'

theorem liftExcept {x : Except Failure α} (hx : ∀ e, x = .error e → E e) :
    OnlyWrites ssl E (Messenger.liftExcept x) := by
  cases x with
  | ok a => exact .pure a
  | error e => exact .throw (hx e rfl)

theorem forM {f : α → ClientM PUnit} (hf : ∀ a, OnlyWrites ssl E (f a)) :
    ∀ l : List α, OnlyWrites ssl E (l.forM f)
  | [] => .pure _
  | a :: l => .bind (hf a) fun _ => OnlyWrites.forM hf l

end OnlyWrites

/-! ## The pieces of the handlers -/

namespace OnlyWrites

/-- Sending on a closed connection ends the process, which `E` has to allow. -/
theorem sendToServer (hkilled : E .killed) (data : Bytes) :
    OnlyWrites ssl E (Messenger.sendToServer data) := by
  refine fun c => .get_bind ?_
  split
  · exact .of_ok rfl (.single (.outgoing _))
  · exact .throw .refl hkilled

theorem uiCallback (text : Bytes) : OnlyWrites ssl E (Messenger.uiCallback text) :=
  .modify fun _ => .ui _

theorem counterFor (peer : Bytes) : OnlyWrites ssl E (Messenger.counterFor peer) := fun c =>
  .of_ok (counterFor_run peer c) (.single (.messagesCounter _))

theorem advanceCounter (peer : Bytes) : OnlyWrites ssl E (Messenger.advanceCounter peer) :=
  .modify fun _ => .messagesCounter _

variable (hE : ∀ e, e.IsThrown → E e)

include hE

theorem constructMessage (payload : Bytes) (metalen : UInt8) (metadata : List Bytes)
    (type : MessageType) :
    OnlyWrites ssl E (Messenger.constructMessage payload metalen metadata type) :=
  .get_bind fun _ => .liftExcept fun _ h => hE _ (new_isThrown h)

theorem cachePublicKey (username pubkey identityKey : Bytes) :
    OnlyWrites ssl E (Messenger.cachePublicKey ssl username pubkey identityKey) :=
  .get_set_bind (fun _ => .cached _ _ _) fun _ => .liftExcept fun _ h =>
    hE _ (cachePublicKey_isThrown h)

theorem encryptFor (sender username plaintext : Bytes) (counter : UInt64) :
    OnlyWrites ssl E (Messenger.encryptFor ssl sender username plaintext counter) :=
  .get_set_bind (fun _ => .encrypted _ _ _ _) fun _ => .liftExcept fun _ h =>
    hE _ (encryptFor_isThrown h)

theorem decryptFor (sender username ciphertext signature : Bytes) (counter : UInt64) :
    OnlyWrites ssl E (Messenger.decryptFor ssl sender username ciphertext signature counter) :=
  .get_bind fun _ => .liftExcept fun _ h => hE _ (decryptFor_isThrown h)

variable (hkilled : E .killed)

include hkilled

theorem sendMessage (payload : Bytes) (metalen : UInt8) (metadata : List Bytes)
    (type : MessageType) : OnlyWrites ssl E (Messenger.sendMessage payload metalen metadata type) :=
  .bind (.constructMessage hE _ _ _ _) fun _ => .sendToServer hkilled _

theorem sendCommand (cmd : ParsedCommand) : OnlyWrites ssl E (Messenger.sendCommand cmd) :=
  .get_bind fun _ => .bind (.liftExcept fun _ h => hE _ (makeCommandFromStruct_isThrown h)) fun _ =>
    .sendToServer hkilled _

end OnlyWrites

/-! ## The handlers -/

/-- Whatever is thrown while a private message is shown is caught, so nothing at all comes out of
    it. -/
theorem cipherMessage_writes (msg : Message) :
    OnlyWrites ssl E (CipherMessageHandler.handleIncoming ssl msg) := by
  intro c
  have hshow : OnlyWrites ssl Failure.IsThrown (CipherMessageHandler.showEncryptedMessage ssl
      (msg.getMeta 1) (msg.getMeta 0) (msg.getMeta 2) msg.getPayload (msg.getMeta 3)
      (msg.getMeta 4)) :=
    .bind (.cachePublicKey (fun _ h => h) _ _ _) fun _ => .bind (.counterFor _) fun _ =>
      .bind (.decryptFor (fun _ h => h) _ _ _ _ _) fun _ => .bind (.advanceCounter _) fun _ =>
        .uiCallback _
  exact (hshow c).catchWith (fun _ h => .inl h) ()

theorem fileEnd_writes (msg : Message) :
    OnlyWrites ssl E (ClientFileEndHandler.handleIncoming msg) := by
  intro c
  refine .get_bind ?_
  dsimp only
  split
  · exact .pure _ .refl
  · exact .of_ok rfl (.single (.files _ _))

/-- The size of the file is read before anything else happens. -/
theorem fileStart_writes {msg : Message} (hsize : ∀ e, readU64 (msg.getMeta 2) 0 = .error e → E e) :
    OnlyWrites ssl E (ClientFileStartHandler.handleIncoming msg) := by
  refine .bind (.liftExcept hsize) fun _ c => .get_bind ?_
  dsimp only
  split
  · exact .pure _ .refl
  · exact .of_ok rfl (.single (.files _ _))

section Handlers

variable (hE : ∀ e, e.IsThrown → E e) (hkilled : E .killed)

include hE hkilled

theorem sendPendingMessage_writes (username : Bytes) (msgToSend : OutgoingMessage) :
    OnlyWrites ssl E (ResponseMessageHandler.sendPendingMessage ssl username msgToSend) :=
  .get_bind fun _ => .bind (.counterFor _) fun _ => .bind (.encryptFor hE _ _ _ _) fun _ =>
    .bind (.sendMessage hE hkilled _ _ _ _) fun _ => .advanceCounter _

theorem sendPending_writes (username : Bytes) (turns : Nat) :
    OnlyWrites ssl E (ResponseMessageHandler.sendPending ssl username turns) := by
  induction turns with
  | zero => exact .pure _
  | succ turns ih =>
    refine .get_set_bind (fun _ => .mq _) fun c => ?_
    dsimp only
    split
    · exact .pure _
    · exact .bind (sendPendingMessage_writes hE hkilled username _) fun _ => ih

/-- The answer to a `GET_PUBKEY`. What is sent is made of assignments; the printing is left to the
    caller, in the context that there is by then. -/
theorem response_writes {msg : Message}
    (hprint : ∀ c', c.Writes ssl c' → Respects (ClientContext.Writes ssl) E
      (ResponseMessageHandler.printPendingReceived ssl (msg.getMeta 1)) c') :
    Respects (ClientContext.Writes ssl) E (ResponseMessageHandler.handleIncoming ssl msg) c := by
  unfold ResponseMessageHandler.handleIncoming
  split
  · exact .pure _ .refl
  · split
    · have hsends : OnlyWrites ssl E (do
          cachePublicKey ssl (msg.getMeta 1) msg.getPayload (msg.getMeta 2)
          ResponseMessageHandler.sendPending ssl (msg.getMeta 1) 4096) :=
        .bind (.cachePublicKey hE _ _ _) fun _ => sendPending_writes hE hkilled _ _
      have hrun : ResponseMessageHandler.handleGetPubkeyResponse ssl msg = (do
          cachePublicKey ssl (msg.getMeta 1) msg.getPayload (msg.getMeta 2)
          ResponseMessageHandler.sendPending ssl (msg.getMeta 1) 4096) >>= fun _ =>
            ResponseMessageHandler.printPendingReceived ssl (msg.getMeta 1) := by
        rw [bind_assoc]
        rfl
      rw [hrun]
      exact (hsends c).bind (fun _ c' h => hprint c' h) (fun _ h => h) fun _ _ h h' => h.trans h'
    · exact .pure _ .refl

theorem sendChunk_writes (recipient filename chunk : Bytes) :
    OnlyWrites ssl E (SendFileCommand.sendChunk ssl recipient filename chunk) :=
  .bind (.counterFor _) fun _ => .get_bind fun _ => .bind (.encryptFor hE _ _ _ _) fun _ =>
    .bind (.advanceCounter _) fun _ => .sendMessage hE hkilled _ _ _ _

theorem execute_writes (cmd : ClientCommand) (msg : Message) :
    OnlyWrites ssl E (cmd.execute ssl msg) := by
  cases cmd with
  | exit => exact .bind (.sendMessage hE hkilled _ _ _ _) fun _ => .modify fun _ => .connected _
  | login => exact .get_set_bind (fun _ => .myUsername _) fun _ => .sendCommand hE hkilled _
  | room => exact .sendCommand hE hkilled _
  | send => exact .sendMessage hE hkilled _ _ _ _
  | join => exact .sendCommand hE hkilled _
  | getpub => exact .sendMessage hE hkilled _ _ _ _
  | pmess =>
    unfold ClientCommand.execute PrivateMessageCommand.executeOnClient
    dsimp only
    split
    · exact .pure _
    · exact .bind (.sendMessage hE hkilled _ _ _ _) fun _ => .modify fun _ => .mq _
  | help => exact .pure _
  | sendfile =>
    intro c
    refine .get_bind ?_
    dsimp only
    split
    · exact .pure _ .refl
    · refine .set_bind ?_ fun _ h => .head (.opened _) h
      refine OnlyWrites.bind (.sendMessage hE hkilled _ _ _ _) (fun _ => ?_) _
      exact .bind (.forM (sendChunk_writes hE hkilled _ _) _) fun _ =>
        .sendMessage hE hkilled _ _ _ _

omit hkilled in
theorem fileChunk_writes (msg : Message) :
    OnlyWrites ssl E (ClientFileChunkHandler.handleIncoming ssl msg) := by
  refine .get_bind fun c => ?_
  dsimp only
  split
  · exact .pure _
  · refine .bind (.counterFor _) fun _ => .bind (.cachePublicKey hE _ _ _) fun _ => ?_
    exact .bind (.decryptFor hE _ _ _ _ _) fun _ => .modify fun c => .files c.disk _

/-- **What a handler does to the context is a sequence of assignments**, and it fails by
    throwing or is killed, but for the two places. -/
theorem handler_writes {msg : Message} {handle : Message → ClientM Unit}
    (h : ClientMessageDispatcher.handler ssl msg.getType = some handle)
    (hsize : msg.getType = .fileStart → ∀ e, readU64 (msg.getMeta 2) 0 = .error e → E e)
    (hprint : ∀ c', c.Writes ssl c' → Respects (ClientContext.Writes ssl) E
      (ResponseMessageHandler.printPendingReceived ssl (msg.getMeta 1)) c') :
    Respects (ClientContext.Writes ssl) E (handle msg) c := by
  unfold ClientMessageDispatcher.handler at h
  split at h
  · cases h
    exact OnlyWrites.uiCallback _ c
  · cases h
    cases hcmd : msg.clientCommand with
    | none =>
      rw [clientBusDispatch_of_none hcmd]
      exact .pure _ .refl
    | some cmd =>
      rw [clientBusDispatch_of_command hcmd]
      exact execute_writes hE hkilled cmd msg c
  · cases h
    exact response_writes hE hkilled hprint
  · cases h
    exact cipherMessage_writes msg c
  · cases h
    rename_i htype
    exact fileStart_writes (hsize htype) c
  · cases h
    exact fileChunk_writes hE msg c
  · cases h
    exact fileEnd_writes msg c
  · cases h

end Handlers

/-! ## Runs -/

/-- With any failure allowed, the printing is made of assignments as well. -/
theorem printPendingReceived_writes (username : Bytes) :
    OnlyWrites ssl (fun _ => True) (ResponseMessageHandler.printPendingReceived ssl username) := by
  refine .get_set_bind (fun _ => .received _) fun c => .forM (fun ciphertext => ?_) _
  refine .bind (.get_bind fun c => ?_) fun counter => ?_
  · split
    · exact .pure _
    · exact .throw trivial
  · exact .bind (.decryptFor (fun _ _ => trivial) _ _ _ _ _) fun _ => .pure _

theorem step_writes (c : ClientContext) (e : ClientEvent) : c.Writes ssl (c.step ssl e) := by
  cases hmsg : e.message with
  | none =>
    rcases step_without_message hmsg c with ⟨now, hstep⟩ | ⟨disk, hstep⟩
    · rw [hstep]
      exact .single (.now now)
    · rw [hstep]
      exact .single (.files disk _)
  | some event =>
    obtain ⟨now, msg⟩ := event
    rw [step_of_message hmsg]
    refine .head (.now now) ?_
    cases hhandler : ClientMessageDispatcher.handler ssl msg.getType with
    | none =>
      rw [clientDispatch_unhandled hhandler]
    | some handle =>
      rw [clientDispatch_of_handler hhandler]
      have hwrites := handler_writes (E := fun _ => True) (fun _ _ => trivial) trivial hhandler
        (fun _ _ _ => trivial) fun c' (_ : ClientContext.Writes ssl { c with now := now } c') =>
          printPendingReceived_writes (msg.getMeta 1) c'
      exact hwrites.state

/-- **A run is a sequence of assignments.** -/
theorem run_writes (c : ClientContext) (events : List ClientEvent) :
    c.Writes ssl (c.run ssl events) := by
  induction events generalizing c with
  | nil => exact .refl
  | cons e events ih => exact (step_writes c e).trans (ih _)

end Messenger
