import Messenger.Proof.Server.Changes

/-!
# Bytes that reach the server

`on_tcp_data_received` is called from the event loop with whatever a client has framed.
It decodes outside any `try`, so its exceptions are those of the decoder: the call returns
exactly when the bytes begin with a frame of the wire grammar. Behind the decoder nothing
escapes (`handleMessage_returns`).

The dispatcher has a way of its own from bytes to a handler, `dispatchFromRawBytes`, with
the decoder inside the `try`. That one always returns.
-/

set_option autoImplicit false

namespace Messenger

open Messenger.Lib

theorem dispatch_changesAt (msg : Message) (s : ServerContext) :
    ChangesAt (ServerMessageDispatcher.dispatch msg) s := by
  obtain ⟨b, s', hrun, hchanged⟩ := dispatch_returns msg s
  exact .of_ok hrun hchanged

/-- With the decoder inside the `try`, nothing gets out. -/
theorem dispatchFromRawBytes_returns (raw : Bytes) (s : ServerContext) :
    ∃ b s', ServerMessageDispatcher.dispatchFromRawBytes raw s = .ok b s' ∧ Changed s s' := by
  apply catchException_returns
  exact ChangesAt.bind (.liftExcept fun _ => deserialize_isThrown) dispatch_changesAt

theorem onTcpDataReceived_ok {raw : Bytes} {msg : Message}
    (h : Serializer.deserialize raw = .ok msg) (fd : Fd) (s : ServerContext) :
    MessagingServer.onTcpDataReceived fd raw s = MessagingServer.handleMessage fd msg s := by
  unfold MessagingServer.onTcpDataReceived
  rw [h]
  rfl

/-- An exception of the decoder leaves the call, before anything is done. -/
theorem onTcpDataReceived_error {raw : Bytes} {x : Failure}
    (h : Serializer.deserialize raw = .error x) (fd : Fd) (s : ServerContext) :
    MessagingServer.onTcpDataReceived fd raw s = .error x s := by
  unfold MessagingServer.onTcpDataReceived
  rw [h]
  rfl

/-- **When client bytes do the server no harm**: when they begin with a frame, and only
    then. (The framer hands over at most `2 ^ 32 - 1` bytes at a time.) -/
theorem onTcpDataReceived_returns_iff (s : ServerContext) (fd : Fd) (raw : Bytes)
    (hraw : raw.length < 2 ^ 32) :
    ((∃ s', MessagingServer.onTcpDataReceived fd raw s = .ok () s') ∧
      (¬WellFormed raw →
        (finalState (MessagingServer.onTcpDataReceived fd raw) s).services = s.services)) ↔
      WellFormed raw := by
  rw [← deserialize_ok_iff hraw]
  constructor
  · rintro ⟨⟨s', hreturns⟩, -⟩
    cases hmsg : Serializer.deserialize raw with
    | ok msg => exact ⟨msg, rfl⟩
    | error x =>
      rw [onTcpDataReceived_error hmsg] at hreturns
      cases hreturns
  · rintro ⟨msg, hmsg⟩
    obtain ⟨s', hrun, -⟩ := handleMessage_returns fd msg s
    refine ⟨⟨s', ?_⟩, fun hnot => absurd ⟨msg, hmsg⟩ hnot⟩
    rw [onTcpDataReceived_ok hmsg]
    exact hrun

theorem onTcpDataReceived_text_returns :
    ∃ s', MessagingServer.onTcpDataReceived 5 (bytes "\x00\x00\x00\x00\x00\x02hi") {} = .ok () s' :=
  ((onTcpDataReceived_returns_iff {} 5 (bytes "\x00\x00\x00\x00\x00\x02hi") (by decide)).mpr
    ((deserialize_ok_iff (by decide)).mp ⟨_, rfl⟩)).1

/-- One byte is enough. -/
theorem onTcpDataReceived_throws :
    MessagingServer.onTcpDataReceived 5 [0x00] {}
      = .error (runtimeError "Malformed message: too short") {} := rfl

end Messenger
