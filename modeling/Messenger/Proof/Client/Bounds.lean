import Messenger.Proof.Client.Writes

/-!
# Where a client reads past the end of an entry

A message that has been decoded may have any number of metadata entries, of any length. A
missing entry reads as empty, and most handlers hand an entry on as a whole. Of those that look
into one, the handler of a response checks that it is not empty and the decryption checks its
length first; the handler of `FileStart` reads eight bytes of the third entry unchecked.
-/

set_option autoImplicit false

namespace Messenger

open Messenger.Lib

variable {ssl : OpenSSL} {c c' : ClientContext}

/-- Between the decoder and the dispatcher nothing can go out of bounds. -/
theorem received_dispatches {raw : Bytes} {msg : Message}
    (h : Serializer.deserialize raw = .ok msg) :
    MessagingClient.onTcpDataReceived ssl raw c = .error .outOfBounds c' ↔
      ClientMessageDispatcher.dispatch ssl msg c = .error .outOfBounds c' := by
  have hrun : MessagingClient.onTcpDataReceived ssl raw
      = ClientMessageDispatcher.dispatch ssl msg >>= fun _ => pure () := by
    unfold MessagingClient.onTcpDataReceived
    rw [h]
    rfl
  rw [hrun]
  refine ⟨fun hfails => ?_, fun hfails => bind_error hfails⟩
  rcases bind_eq_error hfails with hfirst | ⟨_, _, -, hsecond⟩
  · exact hfirst
  · cases hsecond

/-- With nothing waiting for a key, a handler stays in bounds if there is a size to read. The
    handlers have been gone through in `handler_writes`, which leaves two places open: the size in a
    `FileStart`, and the printing of what has waited, where the ciphertexts are looked into. -/
theorem handler_in_bounds {msg : Message} {handle : Message → ClientM Unit}
    (h : ClientMessageDispatcher.handler ssl msg.getType = some handle)
    (hc : c.pendingMessages = .empty)
    (hsize : ¬(msg.getType = .fileStart ∧ (msg.getMeta 2).length < 8)) :
    Respects (ClientContext.Writes ssl) (· ≠ .outOfBounds) (handle msg) c := by
  refine handler_writes (fun _ h => h.ne_outOfBounds) (by decide) h ?_ ?_
  · intro htype e he
    have hlength : ¬(msg.getMeta 2).length < 8 := fun hshort => hsize ⟨htype, hshort⟩
    obtain ⟨v, hv⟩ := readU64_ok (show 0 + 8 ≤ (msg.getMeta 2).length by omega)
    rw [hv] at he
    cases he
  · intro c' hwrites
    have hnothing : c'.pendingMessages (msg.getMeta 1) = none := by
      rw [hwrites.pendingMessages_empty hc]
      rfl
    exact .of_ok (printPendingReceived_nothing hnothing) (.single (.received _))

/-- The dispatcher catches exceptions, and a read out of bounds is none. -/
theorem dispatch_in_bounds {msg : Message} (hc : c.pendingMessages = .empty)
    (hsize : ¬(msg.getType = .fileStart ∧ (msg.getMeta 2).length < 8)) :
    ClientMessageDispatcher.dispatch ssl msg c ≠ .error .outOfBounds c' := by
  intro hfails
  unfold ClientMessageDispatcher.dispatch at hfails
  cases hhandler : ClientMessageDispatcher.handler ssl msg.getType with
  | none =>
    rw [hhandler] at hfails
    cases hfails
  | some handle =>
    rw [hhandler] at hfails
    have hhandle := (handler_in_bounds hhandler hc hsize).bind_pure fun _ => true
    exact (hhandle.catchWith (fun _ h => .inr h) false).fails hfails rfl

/-- The handler reads the size before it does anything else, so nothing has changed. -/
theorem fileStart_short {msg : Message} (htype : msg.getType = .fileStart)
    (hshort : (msg.getMeta 2).length < 8) :
    ClientMessageDispatcher.dispatch ssl msg c = .error .outOfBounds c := by
  unfold ClientMessageDispatcher.dispatch
  rw [htype]
  have hhandle : ClientFileStartHandler.handleIncoming msg c = .error .outOfBounds c := by
    unfold ClientFileStartHandler.handleIncoming
    rw [readU64_short hshort]
    rfl
  show catchWith false (ClientFileStartHandler.handleIncoming msg >>= fun _ => Pure.pure true) c = _
  unfold catchWith
  rw [bind_error hhandle]

/-- **A client reads outside an entry exactly if a `FileStart` says no size.** This is so for every
    message that is decoded and after any events, for a client that starts with nothing waiting for
    a key. As nothing ever puts anything there, nothing will be. -/
theorem received_in_bounds_iff {start : ClientContext} (hstart : start.pendingMessages = .empty)
    (events : List ClientEvent) {raw : Bytes} {msg : Message}
    (hmsg : Serializer.deserialize raw = .ok msg) :
    (∀ c', MessagingClient.onTcpDataReceived ssl raw (start.run ssl events)
        ≠ .error .outOfBounds c') ↔
      ¬(msg.getType = .fileStart ∧ (msg.getMeta 2).length < 8) := by
  constructor
  · rintro hnever ⟨htype, hshort⟩
    exact hnever _ ((received_dispatches hmsg).mpr (fileStart_short htype hshort))
  · intro hsize c' hfails
    have hwrites : start.Writes ssl (start.run ssl events) := run_writes start events
    have hempty := hwrites.pendingMessages_empty hstart
    exact dispatch_in_bounds hempty hsize ((received_dispatches hmsg).mp hfails)

/-- A `FileStart` with two empty names and a size, for a client that has already got a text. -/
theorem fileStart_with_size_in_bounds :
    let bob : ClientContext :=
      { encryption := { dhKey := [3], identityKey := [4], entropy := fun _ => none } }
    let raw : Bytes := [5, 3, 0, 0, 0, 0, 0, 8, 1, 0, 0, 0, 0, 0, 0, 0, 0, 0, 0, 0]
    (Serializer.deserialize raw).toOption.map Message.getType = some .fileStart ∧
      ∀ c', MessagingClient.onTcpDataReceived clearSSL raw
        (bob.run clearSSL [.received 1 [0, 0, 0, 0, 0, 0]]) ≠ .error .outOfBounds c' := by
  intro bob raw
  have hparts : (Serializer.deserialize raw).toOption.map (fun msg =>
      (msg.getType, (msg.getMeta 2).length)) = some (.fileStart, 8) := by decide +kernel
  cases hmsg : Serializer.deserialize raw with
  | error x =>
    rw [hmsg] at hparts
    cases hparts
  | ok msg =>
    rw [hmsg] at hparts
    obtain ⟨htype, hlength⟩ := Prod.mk.inj (Option.some.inj hparts)
    refine ⟨congrArg some htype, (received_in_bounds_iff rfl _ hmsg).mpr ?_⟩
    rintro ⟨-, hshort⟩
    omega

/-- A `FileStart` without metadata is decoded, and its handler reads what is not there. -/
theorem empty_fileStart_out_of_bounds :
    let bob : ClientContext :=
      { encryption := { dhKey := [3], identityKey := [4], entropy := fun _ => none } }
    (Serializer.deserialize [5, 0, 0, 0, 0, 0]).toOption.map Message.getType = some .fileStart ∧
      MessagingClient.onTcpDataReceived clearSSL [5, 0, 0, 0, 0, 0] bob
        = .error .outOfBounds bob :=
  ⟨by decide +kernel, rfl⟩

end Messenger
