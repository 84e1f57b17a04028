import Messenger.Proof.Server.Broadcast
import Messenger.Proof.Server.Leaving

/-!
# One reply to a request

What a handler of the server sends is one of three things: a fixed reply, which says that
the request was refused, a message that was made for the occasion, or the request itself
passed on. A fixed reply is never sent after the services have been written
(`Clean`), and a request that is not passed on is answered once (`Replied`).

What is made for the occasion has to be made: `Message` refuses to be larger than a 32 bit
length can say, and the exception ends the handler. Names and keys have come in as metadata
entries, so replies made of them are far from that. A private message is the exception: the
keys of the sender are added to a payload that may leave no room for them.

The three outcomes are told apart by what a request is passed on to. That everything else gets
exactly one reply is proved handler by handler, with all branches of each: the replies are texts
that the source has as constants, except for those that are made of a name or of keys. For these it
has to be known that they fit, and for keys this is a matter of the run, as the keys were brought
by an earlier login (`registered_fits`).

The private message that is dropped is the third outcome. The sender has been asked for, the
recipient has been found, and then the constructor throws; the dispatcher catches it, and neither
of the two is told.
-/

set_option autoImplicit false

namespace Messenger

open Messenger.Lib

/-! ## What has come in -/

/-- A message as it comes in on a connection: decoded from bytes that the framer can hand
    over. -/
def Message.Received (msg : Message) : Prop :=
  ∃ raw : Bytes, raw.length < 2 ^ 32 ∧ Serializer.deserialize raw = .ok msg

/-- The same for an event. A connection that ends brings no bytes. -/
def ServerEvent.Received : ServerEvent → Prop
  | .message _ _ msg => msg.Received
  | .disconnect _ _ => True

theorem Message.Received.entry_fits {msg : Message} (h : msg.Received) (i : Nat) :
    (msg.getMeta i).length ≤ 65535 := by
  obtain ⟨raw, -, hraw⟩ := h
  exact deserialize_entry_fits hraw i

/-- The payload fits into a message without entries, as it did into a larger one. -/
theorem Message.Received.payload_fits {msg : Message} (h : msg.Received) :
    compactSize [] msg.getPayload < 2 ^ 32 := by
  obtain ⟨raw, hlength, hraw⟩ := h
  exact deserialize_payload_fits hlength hraw

/-- The keys of a user came in as entries of a message. -/
structure User.Fits (user : User) : Prop where
  dhKey : user.publicDHKey.length ≤ 65535
  identityKey : user.publicIdentityKey.length ≤ 65535
  signature : user.signature.length ≤ 65535

/-- The keys of everyone registered came in with a login, so each of them is as short as an
    entry. -/
theorem registered_fits {events : List ServerEvent} (hevents : ∀ e ∈ events, e.Received) {u : Name}
    {user : User} (hu : (serverAfter events).users.findUser u = .ok user) : user.Fits := by
  have huser : (serverAfter events).users u = some user := by
    unfold UserService.findUser at hu
    split at hu
    · cases hu
    · cases hu
      assumption
  obtain ⟨fd, login, ⟨before, now, after, rfl, -, -⟩, rfl⟩ :=
    directoryFromLogins_run events u user huser
  have hlogin : login.Received := hevents (.message now fd login) (by simp)
  exact ⟨hlogin.entry_fits 2, hlogin.entry_fits 3, hlogin.entry_fits 4⟩

/-! ## The ways a request can end -/

/-- Between `s` and `s'`, a fixed reply is the only thing sent, goes to `fd`, and nothing else has
    happened. If no fixed reply is sent, this says nothing. -/
def Clean (fd : Fd) (s s' : ServerContext) : Prop :=
  ∃ sent, s'.outbox = s.outbox ++ sent ∧
    ∀ g r, (g, .static r) ∈ sent → sent = [(fd, .static r)] ∧ s'.services = s.services

/-- One reply has gone to `fd`. If it is a fixed one, nothing else has happened. -/
def Replied (fd : Fd) (s s' : ServerContext) : Prop :=
  ∃ packet, s'.outbox = s.outbox ++ [(fd, packet)] ∧
    ∀ r, packet = .static r → s'.services = s.services

section Ends

variable {s s' : ServerContext} {fd : Fd}

theorem Replied.clean (h : Replied fd s s') : Clean fd s s' := by
  obtain ⟨packet, hsent, hservices⟩ := h
  refine ⟨[(fd, packet)], hsent, fun g r hmem => ?_⟩
  obtain ⟨rfl, rfl⟩ : g = fd ∧ .static r = packet := by simpa using hmem
  exact ⟨rfl, hservices r rfl⟩

theorem Clean.of_copies (fds : List Fd) {m : Message}
    (h : s'.outbox = s.outbox ++ fds.map fun g => (g, .serialized m)) : Clean fd s s' := by
  refine ⟨_, h, fun g r hmem => ?_⟩
  obtain ⟨g', -, heq⟩ := List.mem_map.mp hmem
  cases heq

theorem Clean.of_nothing (h : s'.outbox = s.outbox) : Clean fd s s' :=
  ⟨[], by rw [h, List.append_nil], fun g r hmem => by cases hmem⟩

theorem Replied.static (r : StaticResponse) (s : ServerContext) :
    Replied fd s (finalState (send fd (.static r)) s) :=
  ⟨.static r, rfl, fun _ _ => rfl⟩

/-- A text is made and sent after the services may have been written: it is the reply to a request
    that was granted. -/
theorem Replied.text {text : Bytes} (htext : compactSize [] text < 2 ^ 32)
    (houtbox : s'.outbox = s.outbox) : Replied fd s (finalState (sendText fd text) s') := by
  obtain ⟨m, -, hrun⟩ := sendText_run htext fd s'
  rw [finalState_ok hrun]
  exact ⟨.serialized m, by rw [houtbox], fun r hr => by cases hr⟩

end Ends

/-! ## The handlers -/

section Handlers

variable (s : ServerContext)

/-- Every branch of a login sends exactly one reply. The branches below go the same way, and only
    the text of the last one depends on an argument. -/
theorem login_replied {u : Name} (hu : u.length ≤ 65535) (dh identity sig : Bytes) :
    Replied s.fd s (finalState (ServerApplicationService.login u dh identity sig) s) := by
  unfold ServerApplicationService.login
  rw [finalState_get_bind]
  split
  · exact .static _ s
  · split
    · exact .static _ s
    · exact .text (greeting_fits hu) rfl

/-- There are two branches with the text of a success: the source sends it also for an error that it
    does not name. -/
theorem joinRoom_replied {c : Name} (hc : c.length ≤ 65535) :
    Replied s.fd s (finalState (ServerApplicationService.joinRoom c) s) := by
  have htext : compactSize [] (bytes "You joined the room " ++ c) < 2 ^ 32 := by
    rw [← List.append_nil (bytes "You joined the room " ++ c)]
    exact text_fits (by decide) hc (by decide)
  unfold ServerApplicationService.joinRoom
  rw [finalState_get_bind]
  split
  · exact .static _ s
  · split
    · exact .static _ s
    · split
      · exact .static _ s
      · exact .static _ s
      · exact .text htext rfl
      · exact .text htext rfl

theorem createRoom_replied {c : Name} (hc : c.length ≤ 65535) :
    Replied s.fd s (finalState (ServerApplicationService.createRoom c) s) := by
  have htext : compactSize [] (bytes "Room " ++ c ++ bytes " was created!") < 2 ^ 32 :=
    text_fits (by decide) hc (by decide)
  unfold ServerApplicationService.createRoom
  rw [finalState_get_bind]
  split
  · exact .static _ s
  · split
    · exact .static _ s
    · split
      · exact .static _ s
      · exact .text htext rfl

/-- The reply is made of keys that are in the directory, so that it can be made is a matter of what
    came in earlier (`registered_fits`). -/
theorem sendPubkey_replied {u : Name} (hu : u.length ≤ 65535)
    (hkeys : ∀ user, s.users.findUser u = .ok user → user.Fits) :
    Replied s.fd s (finalState (ServerApplicationService.sendPubkey u) s) := by
  unfold ServerApplicationService.sendPubkey
  rw [finalState_get_bind]
  split
  · exact .static _ s
  · split
    · exact .static _ s
    · rename_i user huser
      have hfits := hkeys user huser
      have hsize : compactSize [[CommandType.getPubkey.toByte], u, user.publicIdentityKey,
          user.signature] user.publicDHKey < 2 ^ 32 := by
        have hdh := hfits.dhKey
        have hidentity := hfits.identityKey
        have hsignature := hfits.signature
        simp [compactSize]
        omega
      obtain ⟨m, hconstruct, -⟩ := construct_ok 4 .response s (by simp) hsize
      rw [finalState_bind_ok hconstruct]
      exact ⟨.serialized m, rfl, fun r hr => by cases hr⟩

end Handlers

section Passing

variable {s : ServerContext} {fd : Fd} {msg : Message}

/-- A file for someone who is not online is refused. -/
theorem forwardFile_replied (msg : Message) (h : ∀ g, s.sessions.getFd (msg.getMeta 0) ≠ .ok g) :
    Replied s.fd s (finalState (forwardFile msg) s) := by
  unfold forwardFile
  rw [finalState_get_bind]
  split
  · exact .static _ s
  · rename_i g hg
    exact absurd hg (h g)

/-- A private message is refused if its sender or its recipient is missing. The source asks for the
    recipient before it asks for the sender's keys, so there are three refusals. -/
theorem deliverCipherMessage_replied (msg : Message)
    (h : ∀ u sender g, s.sessions.getUsername fd = .ok u →
      s.users.findUser u = .ok sender → s.sessions.getFd (msg.getMeta 0) ≠ .ok g) :
    Replied fd s (finalState (ServerApplicationService.deliverCipherMessage fd msg) s) := by
  unfold ServerApplicationService.deliverCipherMessage
  rw [finalState_get_bind]
  split
  · exact .static _ s
  · rename_i u hu
    split
    · exact .static _ s
    · rename_i g hg
      split
      · exact .static _ s
      · rename_i sender hsender
        exact absurd hg (h u sender g hu hsender)

end Passing

/-! ## Requests -/

/-- The kinds of requests that the handlers above are for. -/
inductive Message.IsRequest (msg : Message) : Prop
  | login (h : msg.IsCommand .login)
  | room (h : msg.IsCommand .makeRoom)
  | join (h : msg.IsCommand .join)
  | send (h : msg.IsCommand .send)
  | getpub (h : msg.IsCommand .getPubkey)
  | cipher (h : msg.getType = .cipherMessage)
  | file (h : msg.getType.IsFile)

/-- The request goes on to others: a private message from someone who is logged in to someone
    who is online, a file to someone who is online, a group message from a member. -/
inductive Message.PassedOn (msg : Message) (s : ServerContext) (fd : Fd) : Prop
  | cipher {u : Name} {sender : User} (h : msg.getType = .cipherMessage)
      (hu : s.sessions.getUsername fd = .ok u) (hsender : s.users.findUser u = .ok sender)
      (hforward : msg.Forwardable s sender)
  | file {g : Fd} (h : msg.getType.IsFile) (hg : s.sessions.getFd (msg.getMeta 0) = .ok g)
  | send {u : Name} {chat : Chat} (h : msg.IsCommand .send)
      (hu : s.sessions.getUsername fd = .ok u) (hchat : s.chats (msg.getMeta 1) = some chat)
      (hmember : u ∈ chat.getMembers)

/-- A private message that would go on to someone, but with the keys of its sender it is too
    large for a message. -/
structure Message.TooLarge (msg : Message) (s : ServerContext) (fd : Fd) : Prop where
  type : msg.getType = .cipherMessage
  parties : ∃ u sender g, s.sessions.getUsername fd = .ok u ∧ s.users.findUser u = .ok sender ∧
    s.sessions.getFd (msg.getMeta 0) = .ok g ∧
      2 ^ 32 ≤ compactSize (msg.forwardedEntries sender) msg.getPayload

/-- How a request ends. The three fields are the three outcomes: refused, answered or passed on, and
    dropped without a word. -/
structure Ends (fd : Fd) (msg : Message) (s s' : ServerContext) : Prop where
  clean : Clean fd s s'
  replied : ¬msg.PassedOn s fd → ¬msg.TooLarge s fd → Replied fd s s'
  dropped : msg.TooLarge s fd → s'.outbox = s.outbox ∧ s'.services = s.services

/-- A request that is always answered ends well, and only a private message can be too large. -/
theorem Ends.of_replied {fd : Fd} {msg : Message} {s s' : ServerContext} (h : Replied fd s s')
    (hcipher : msg.getType ≠ .cipherMessage) : Ends fd msg s s' :=
  ⟨h.clean, fun _ _ => h, fun hlarge => absurd hlarge.type hcipher⟩

theorem Ends.of_command {fd : Fd} {msg : Message} {s : ServerContext} {now : UInt64}
    {code : CommandType} (hcommand : msg.IsCommand code) (cmd : ServerCommand)
    (hcmd : (CommandType.ofByte code.toByte).onServer = some cmd)
    (h : Replied fd { s with now := now, fd := fd }
      (finalState (cmd.execute msg) { s with now := now, fd := fd })) :
    Ends fd msg s (s.step (.message now fd msg)) := by
  refine .of_replied ?_ (by rw [hcommand.type]; decide)
  rw [step_command hcommand.type, hcommand.dispatch cmd hcmd]
  exact h

section Ends

variable {s : ServerContext} {fd : Fd} {msg : Message} (now : UInt64)

/-- A post. Either the sender is in the room and the copies go out, or there is one of the
    refusals. -/
theorem send_ends (h : msg.IsCommand .send) (hfits : compactSize [] msg.getPayload < 2 ^ 32) :
    Ends fd msg s (s.step (.message now fd msg)) := by
  obtain ⟨message, -, hstep⟩ := step_send ⟨h.type, h.code⟩ hfits s now fd
  have hcipher : msg.getType ≠ .cipherMessage := by
    rw [h.type]
    decide
  by_cases hmember : ∃ u chat, s.sessions.getUsername fd = .ok u ∧
      s.chats (msg.getMeta 1) = some chat ∧ u ∈ chat.getMembers
  · obtain ⟨u, chat, hu, hchat, hmem⟩ := hmember
    have hrun :=
      sendGroupMessage_member (s := { s with now := now, fd := fd }) hu hchat hmem message
    rw [hstep _ hrun]
    refine ⟨.of_copies _ rfl, fun hnot => absurd (.send h hu hchat hmem) hnot, fun hlarge => ?_⟩
    exact absurd hlarge.type hcipher
  · obtain ⟨r, hrun⟩ := sendGroupMessage_refused (s := { s with now := now, fd := fd })
      (fun u chat hu hchat hmem => hmember ⟨u, chat, hu, hchat, hmem⟩) message
    rw [hstep _ hrun]
    exact .of_replied ⟨.static r, rfl, fun _ _ => rfl⟩ hcipher

/-- A file is passed on as it came, so there is nothing that could be too large. -/
theorem file_ends (h : msg.getType.IsFile) : Ends fd msg s (s.step (.message now fd msg)) := by
  have hcipher : msg.getType ≠ .cipherMessage := by
    intro heq
    rw [heq] at h
    cases h
  rw [step_file h]
  by_cases honline : ∃ g, s.sessions.getFd (msg.getMeta 0) = .ok g
  · obtain ⟨g, hg⟩ := honline
    rw [finalState_ok (forwardFile_run (s := { s with now := now, fd := fd }) hg)]
    refine ⟨.of_copies [g] rfl, fun hnot => absurd (.file h hg) hnot, fun hlarge => ?_⟩
    exact absurd hlarge.type hcipher
  · have hreplied := forwardFile_replied (s := { s with now := now, fd := fd }) msg
      fun g hg => honline ⟨g, hg⟩
    exact .of_replied hreplied hcipher

/-- A private message, the one request for which all three outcomes occur. Whether it is passed on
    or dropped depends on its size with the keys of the sender, which it did not have when it came
    in. -/
theorem cipher_ends (h : msg.getType = .cipherMessage) :
    Ends fd msg s (s.step (.message now fd msg)) := by
  rw [step_cipherMessage h]
  by_cases hparties : ∃ u sender g, s.sessions.getUsername fd = .ok u ∧
      s.users.findUser u = .ok sender ∧ s.sessions.getFd (msg.getMeta 0) = .ok g
  · obtain ⟨u, sender, g, hu, hsender, hg⟩ := hparties
    by_cases hfits : compactSize (msg.forwardedEntries sender) msg.getPayload < 2 ^ 32
    · obtain ⟨m, hrun, -⟩ := deliverCipherMessage_forwards (s := { s with now := now, fd := fd })
        hu hsender hg hfits
      rw [finalState_ok hrun]
      refine ⟨.of_copies [g] rfl, fun hnot => ?_, fun hlarge => ?_⟩
      · exact absurd (.cipher h hu hsender ⟨⟨g, hg⟩, hfits⟩) hnot
      · obtain ⟨u', sender', g', hu', hsender', -, hlarge⟩ := hlarge.parties
        obtain rfl := Except.ok.inj (hu.symm.trans hu')
        obtain rfl := Except.ok.inj (hsender.symm.trans hsender')
        omega
    · obtain ⟨x, hrun⟩ := deliverCipherMessage_too_large (s := { s with now := now, fd := fd })
        hu hsender hg hfits
      rw [finalState_error hrun]
      refine ⟨.of_nothing rfl, fun _ hnot => ?_, fun _ => ⟨rfl, rfl⟩⟩
      exact absurd ⟨h, u, sender, g, hu, hsender, hg, by omega⟩ hnot
  · have hreplied := deliverCipherMessage_replied (s := { s with now := now, fd := fd }) msg
      fun u sender g hu hsender hg => hparties ⟨u, sender, g, hu, hsender, hg⟩
    refine ⟨hreplied.clean, fun _ _ => hreplied, fun hlarge => ?_⟩
    obtain ⟨u, sender, g, hu, hsender, hg, -⟩ := hlarge.parties
    exact absurd ⟨u, sender, g, hu, hsender, hg⟩ hparties

end Ends

/-- **A refused request changes nothing.** In every state a server can reach by what comes in on
    its connections, a fixed reply to a request goes to the connection it came from, is all
    that is sent, and leaves the services as they were. A request that is not passed on is
    answered once, unless it is a private message too large to be passed on: that one is
    dropped. -/
theorem request_ends (events : List ServerEvent) (hevents : ∀ e ∈ events, e.Received)
    (now : UInt64) (fd : Fd) (msg : Message) (hmsg : msg.Received) (hrequest : msg.IsRequest) :
    Ends fd msg (serverAfter events) ((serverAfter events).step (.message now fd msg)) := by
  cases hrequest with
  | login h => exact .of_command h .login rfl (login_replied _ (hmsg.entry_fits 1) _ _ _)
  | room h => exact .of_command h .room rfl (createRoom_replied _ (hmsg.entry_fits 1))
  | join h => exact .of_command h .join rfl (joinRoom_replied _ (hmsg.entry_fits 1))
  | send h => exact send_ends now h hmsg.payload_fits
  | getpub h =>
    refine .of_command h .getpub rfl (sendPubkey_replied _ (hmsg.entry_fits 1) ?_)
    exact fun user huser => registered_fits hevents huser
  | cipher h => exact cipher_ends now h
  | file h => exact file_ends now h

/-- Alice logs in and asks for a room that is not there. -/
theorem join_of_alice_ends :
    ∃ login join, Serializer.deserialize aliceLogin = .ok login ∧
      Serializer.deserialize (bytes "\x01\x02\x00\x01\x04\x00\x03den\x00\x00\x00\x00") = .ok join ∧
      Ends 5 join (serverAfter [.message 1 5 login])
        ((serverAfter [.message 1 5 login]).step (.message 2 5 join)) := by
  obtain ⟨login, hlogin⟩ : ∃ m, Serializer.deserialize aliceLogin = .ok m := ⟨_, rfl⟩
  obtain ⟨join, hjoin, hcommand⟩ : ∃ m, Serializer.deserialize
      (bytes "\x01\x02\x00\x01\x04\x00\x03den\x00\x00\x00\x00") = .ok m ∧ m.IsCommand .join :=
    ⟨_, rfl, rfl, rfl⟩
  have hevents : ∀ e ∈ [ServerEvent.message 1 5 login], e.Received := by
    intro e he
    obtain rfl := List.mem_singleton.mp he
    exact ⟨aliceLogin, by decide, hlogin⟩
  exact ⟨login, join, hlogin, hjoin,
    request_ends _ hevents 2 5 join ⟨_, by decide, hjoin⟩ (.join hcommand)⟩

/-- A private message to bob, by its frame, so that its bytes are known without computing them. -/
def letterToBob (payload : Bytes) (h : payload.length < 2 ^ 32) : CompactFrame where
  type := MessageType.cipherMessage.toByte
  metadata := [bytes "bob"]
  payload := payload
  entries_fit := by decide
  payload_fits := h
  count_fits := by decide

def bobLogin : Bytes :=
  bytes "\x01\x05\x00\x01\x02\x00\x03bob\x00\x01K\x00\x01I\x00\x01S\x00\x00\x00\x00"

theorem compactSize_payload (metadata : List Bytes) (payload : Bytes) :
    compactSize metadata payload = compactSize metadata [] + payload.length := rfl

/-- The sender's name and keys are eleven bytes more. -/
theorem letterToBob_too_large {msg : Message} {payload : Bytes}
    (hpayload : payload.length = 2 ^ 32 - 22)
    (hcontent : msg.content = .plain .cipherMessage [bytes "bob"] payload) :
    2 ^ 32 ≤ compactSize (msg.forwardedEntries ⟨bytes "K", bytes "I", bytes "S"⟩)
      msg.getPayload := by
  obtain ⟨-, hmeta, hpay⟩ := Message.of_content hcontent
  have hentries : msg.forwardedEntries ⟨bytes "K", bytes "I", bytes "S"⟩
      = [bytes "bob", [], bytes "K", bytes "I", bytes "S"] := by
    unfold Message.forwardedEntries
    rw [hmeta 0, hmeta 1]
    rfl
  have hheader : compactSize [bytes "bob", [], bytes "K", bytes "I", bytes "S"] [] = 22 := rfl
  rw [hentries, hpay, compactSize_payload, hheader]
  show 2 ^ 32 ≤ 22 + payload.length
  omega

/-- A letter that fits into a message, but not with the keys of its sender. The payload is four
    gigabytes of anything, so the decoder is not run on it: `deserialize_frame` says what it
    returns. -/
theorem letterToBob_dropped (payload : Bytes) (hpayload : payload.length = 2 ^ 32 - 22) :
    let raw := (letterToBob payload (by omega)).bytes
    ∃ alice bob msg, Serializer.deserialize aliceLogin = .ok alice ∧
      Serializer.deserialize bobLogin = .ok bob ∧ Serializer.deserialize raw = .ok msg ∧
      raw.length < 2 ^ 32 - 4 ∧
      let s := serverAfter [.message 1 5 alice, .message 2 6 bob]
      msg.getType = .cipherMessage ∧ ¬msg.PassedOn s 5 ∧
        (s.step (.message 3 5 msg)).outbox = s.outbox := by
  intro raw
  obtain ⟨alice, bob, halice, hbob, hname, hkeys, hrecipient⟩ : ∃ alice bob : Message,
      Serializer.deserialize aliceLogin = .ok alice ∧ Serializer.deserialize bobLogin = .ok bob ∧
      let s := serverAfter [.message 1 5 alice, .message 2 6 bob]
      s.sessions.getUsername 5 = .ok (bytes "alice") ∧
      s.users.findUser (bytes "alice") = .ok ⟨bytes "K", bytes "I", bytes "S"⟩ ∧
      s.sessions.getFd (bytes "bob") = .ok 6 := ⟨_, _, rfl, rfl, rfl, rfl, rfl⟩
  have hsize : compactSize [bytes "bob"] payload < 2 ^ 32 - 4 := by
    have hheader : compactSize [bytes "bob"] [] = 11 := rfl
    rw [compactSize_payload, hheader]
    omega
  obtain ⟨msg, hmsg, hcontent, -⟩ :=
    deserialize_frame (f := .compact (letterToBob payload (by omega)))
    (Nat.lt_trans hsize (by decide)) []
  rw [List.append_nil] at hmsg
  obtain ⟨htype, hmeta, -⟩ :=
    Message.of_content
      (show msg.content = .plain .cipherMessage [bytes "bob"] payload from hcontent)
  have hlarge := letterToBob_too_large hpayload hcontent
  refine ⟨alice, bob, msg, halice, hbob, hmsg, ?_, htype, fun hpassed => ?_, ?_⟩
  · exact (CompactFrame.bytes_length _).trans_lt hsize
  · cases hpassed with
    | cipher _ hu hsender hforward =>
      obtain rfl := Except.ok.inj (hname.symm.trans hu)
      obtain rfl := Except.ok.inj (hkeys.symm.trans hsender)
      exact absurd hforward.fits (by omega)
    | file h _ =>
      rw [htype] at h
      cases h
    | send h _ _ _ => exact absurd (htype.symm.trans h.type) (by decide)
  · have hends : Ends 5 msg (serverAfter [.message 1 5 alice, .message 2 6 bob]) _ :=
      cipher_ends 3 htype
    exact (hends.dropped
      ⟨htype, bytes "alice", _, 6, hname, hkeys, by rw [hmeta 0]; exact hrecipient,
      hlarge⟩).1

/-- The private message that nobody gets and nobody is told about. -/
theorem large_letter_is_dropped :
    ∃ raw alice bob msg, Serializer.deserialize aliceLogin = .ok alice ∧
      Serializer.deserialize bobLogin = .ok bob ∧ Serializer.deserialize raw = .ok msg ∧
      raw.length < 2 ^ 32 - 4 ∧
      let s := serverAfter [.message 1 5 alice, .message 2 6 bob]
      msg.getType = .cipherMessage ∧ ¬msg.PassedOn s 5 ∧
        (s.step (.message 3 5 msg)).outbox = s.outbox :=
  ⟨_, letterToBob_dropped (List.replicate (2 ^ 32 - 22) 0) List.length_replicate⟩

end Messenger
