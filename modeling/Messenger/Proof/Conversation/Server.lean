import Messenger.Proof.Conversation.Packets
import Messenger.Proof.Server.Bytes

/-!
# The server between two clients

With both clients logged in, a key request is answered to the one who asked, and a private
message goes to the other, with the keys of the sender in it. The services stay as they are.
-/

set_option autoImplicit false

namespace Messenger

open Messenger.Lib

variable {ssl : OpenSSL} {acct : Party → Account} {fd : Party → Fd} {s : ServerContext} {p : Party}
  {raw : Bytes}

theorem Peers.names_ne_other (h : Peers ssl acct) (p : Party) :
    (acct p).name ≠ (acct p.other).name := by
  cases p with
  | alice => exact h.names_ne
  | bob => exact h.names_ne.symm

theorem LoggedIn.fd_ne (hs : LoggedIn ssl acct fd s) (h : Peers ssl acct) : fd p ≠ fd p.other := by
  intro heq
  have hname := hs.username p
  rw [heq, hs.username p.other] at hname
  exact h.names_ne_other p (Except.ok.inj hname).symm

theorem LoggedIn.congr {s' : ServerContext} (hs : LoggedIn ssl acct fd s)
    (hservices : s'.services = s.services) : LoggedIn ssl acct fd s' := by
  have husers : s'.users = s.users := congrArg ServiceState.users hservices
  have hsessions : s'.sessions = s.sessions := congrArg ServiceState.sessions hservices
  refine ⟨?_, ?_, ?_⟩
  · rw [hsessions]
    exact hs.username
  · rw [hsessions]
    exact hs.connection
  · rw [husers]
    exact hs.user

/-- The context with one more message for `g`. -/
def ServerContext.sentTo (s : ServerContext) (g : Fd) (msg : Message) : ServerContext :=
  { s with outbox := s.outbox ++ [(g, .serialized msg)] }

theorem sendPubkey_run (hs : LoggedIn ssl acct fd s) (h : Peers ssl acct)
    (hname : (acct p.other).name ≠ []) :
    ∃ msg, ServerApplicationService.sendPubkey (acct p.other).name s = .ok () (s.sentTo s.fd msg) ∧
      Carries (Serializer.serialize msg) (keyReply ssl acct p) := by
  obtain ⟨msg, hconstruct, hcarries⟩ := construct_carries 4 s (keyReply_fits h p)
  refine ⟨msg, ?_, hcarries⟩
  unfold ServerApplicationService.sendPubkey
  rw [get_bind_run, hs.user, if_neg (by simpa using hname)]
  exact bind_ok hconstruct

/-- A private message for the other, with the keys of the sender from the directory. -/
theorem deliverCipherMessage_run (hs : LoggedIn ssl acct fd s) (h : Peers ssl acct) {msg : Message}
    {ciphertext : Bytes} (hmsg : msg.content = privateMessage acct p ciphertext)
    (hlen : ciphertext.length < 2 ^ 31 + 36) :
    ∃ msg', ServerApplicationService.deliverCipherMessage (fd p) msg s
        = .ok () (s.sentTo (fd p.other) msg') ∧
      Carries (Serializer.serialize msg') (forwardedMessage ssl acct p.other ciphertext) := by
  obtain ⟨-, hmeta, hpayload⟩ := Message.of_content hmsg
  obtain ⟨msg', hconstruct, hcarries⟩ :=
    construct_carries 5 s (forwardedMessage_fits h p.other hlen)
  refine ⟨msg', ?_, hcarries⟩
  have hto : msg.getMeta 0 = (acct p.other).name := hmeta 0
  have hfrom : msg.getMeta 1 = (acct p).name := hmeta 1
  rw [Party.other_other] at hconstruct
  unfold ServerApplicationService.deliverCipherMessage
  rw [get_bind_run, hs.username, hto, hs.connection]
  dsimp only
  rw [hs.user, hfrom, hpayload]
  exact bind_ok hconstruct

/-- **A key request is answered.** -/
theorem onTcpDataReceived_request (hs : LoggedIn ssl acct fd s) (h : Peers ssl acct)
    (hraw : Carries raw (keyRequest acct p)) (hname : (acct p.other).name ≠ []) :
    ∃ msg, MessagingServer.onTcpDataReceived (fd p) raw s
        = .ok () (ServerContext.sentTo { s with fd := fd p } (fd p) msg) ∧
      Carries (Serializer.serialize msg) (keyReply ssl acct p) := by
  obtain ⟨request, hrequest, hcontent⟩ := hraw
  obtain ⟨htype, hmeta, -⟩ := Message.of_content hcontent
  have hs' : LoggedIn ssl acct fd { s with fd := fd p } := hs.congr rfl
  obtain ⟨msg, hrun, hcarries⟩ := sendPubkey_run hs' h hname
  refine ⟨msg, ?_, hcarries⟩
  have hcode : request.getMeta 0 = [CommandType.getPubkey.toByte] := hmeta 0
  have hother : request.getMeta 1 = (acct p.other).name := hmeta 1
  have hbus : ServerCommandHandler.handleMessage request { s with fd := fd p }
      = .ok () (ServerContext.sentTo { s with fd := fd p } (fd p) msg) := by
    unfold ServerCommandHandler.handleMessage ServerCommandBus.dispatch Parser.makeStructFromCommand
    rw [hcode]
    show ServerApplicationService.sendPubkey (request.getMeta 1) _ = _
    rw [hother]
    exact hrun
  rw [onTcpDataReceived_ok hrequest]
  exact handleMessage_of_handler (by rw [htype]; rfl) hbus

/-- **A private message is passed on.** -/
theorem onTcpDataReceived_message (hs : LoggedIn ssl acct fd s) (h : Peers ssl acct)
    {ciphertext : Bytes} (hraw : Carries raw (privateMessage acct p ciphertext))
    (hlen : ciphertext.length < 2 ^ 31 + 36) :
    ∃ msg, MessagingServer.onTcpDataReceived (fd p) raw s
        = .ok () (ServerContext.sentTo { s with fd := fd p } (fd p.other) msg) ∧
      Carries (Serializer.serialize msg) (forwardedMessage ssl acct p.other ciphertext) := by
  obtain ⟨m, hm, hcontent⟩ := hraw
  obtain ⟨htype, -, -⟩ := Message.of_content hcontent
  have hs' : LoggedIn ssl acct fd { s with fd := fd p } := hs.congr rfl
  obtain ⟨msg, hrun, hcarries⟩ := deliverCipherMessage_run hs' h hcontent hlen
  refine ⟨msg, ?_, hcarries⟩
  have hhandler : ServerCipherHandler.handleMessage m { s with fd := fd p } = _ := hrun
  rw [onTcpDataReceived_ok hm]
  exact handleMessage_of_handler (by rw [htype]; rfl) hhandler

end Messenger
