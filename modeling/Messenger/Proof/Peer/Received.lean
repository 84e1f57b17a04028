import Messenger.Model.MessagingPeer
import Messenger.Proof.Client.Crypto
import Messenger.Proof.Server.Requests
import Messenger.Proof.Wire.Encode

/-!
# What a peer does with what it receives

A message can do three things to what a peer knows of the others (`PeerDirectory.Change`): it
introduces somebody, in a `CONNECT` or in the response to one; it releases the name of the
connection it came on, in a `DISCONNECT`; or nothing. The name must be new to be taken, and the
keys that came with it are then stored as they are.

The handlers catch what they throw, so of what `on_data_callback` is given only bytes that cannot
be decoded make it throw. One thing is not thrown: a `DISCONNECT` on a descriptor that has no name
dereferences a `std::expected` that holds an error, which no handler can catch. The three outcomes
are told apart in `peer_callback_outcome`.

The change is stated of what a peer knows, and not of its tables: the handlers write up to five of
them, one after the other, and may be stopped in between by a key that OpenSSL does not take. What
is left then is the same as if it had been taken but for the keys, and `PeerDirectory.register` is
defined so that it says this. With it, `introduce_respects` covers both endings in one statement,
and the two handlers that introduce somebody share it.

The exception that is not one comes from `DisconnectCommand`. It is the reason why `ReceivesAt`
speaks of three outcomes, and why `dispatchReceiving_nameless` is needed next to
`dispatchReceiving_receives`: the `catch` of the dispatcher does not help against it.
-/

set_option autoImplicit false

namespace Messenger

open Messenger.Lib

/-! ## What is known of others -/

/-- What a peer knows of others: who is registered, on which descriptor, and with which keys. The
    keys are there twice, in the directory and in the encryption service; the second copy is the one
    that is used. -/
structure PeerDirectory where
  users : UserService
  sessions : SessionManager
  dhKeys : Table Bytes Bytes
  identityKeys : Table Bytes Bytes

def PeerContext.directory (c : PeerContext) : PeerDirectory where
  users := c.users
  sessions := c.sessions
  dhKeys := c.encryption.dhKeys
  identityKeys := c.encryption.identityKeys

/-- The name and the keys that a message introduces. The two messages have them in different places,
    since a `CONNECT` has an address and a port before them. -/
def Message.introduces (msg : Message) : Option (Name × User) :=
  match (msg.getMeta 0).head?.map CommandType.ofByte, msg.getType with
  | some .connect, .command => some (msg.getPayload, {
      publicDHKey := msg.getMeta 3
      publicIdentityKey := msg.getMeta 4
      signature := msg.getMeta 5 })
  | some .connect, .response => some (msg.getPayload, {
      publicDHKey := msg.getMeta 1
      publicIdentityKey := msg.getMeta 2
      signature := msg.getMeta 3 })
  | _, _ => none

namespace PeerDirectory

variable (ssl : OpenSSL)

/-- The identity key is looked at after the DH key has been stored. So with a bad identity key the
    DH key is in use, and with a bad DH key neither is; the user is registered in any case. -/
def register (d : PeerDirectory) (fd : Fd) (u : Name) (keys : User) : PeerDirectory where
  users := d.users.insert u keys
  sessions := d.sessions.bind fd u
  dhKeys := if ssl.dhAccepts keys.publicDHKey then d.dhKeys.insert u keys.publicDHKey else d.dhKeys
  identityKeys :=
    if ssl.dhAccepts keys.publicDHKey && ssl.edAccepts keys.publicIdentityKey then
      d.identityKeys.insert u keys.publicIdentityKey
    else d.identityKeys

/-- The name is free and the descriptor has none. The cached keys stay: nothing in the encryption
    service is ever removed. -/
def release (d : PeerDirectory) (fd : Fd) (u : Name) : PeerDirectory :=
  { d with users := d.users.erase u, sessions := d.sessions.unbind fd }

/-- What a message on the connection `fd` can do. These three are all: a message changes at most one
    name, and only one that nobody has or the one that is bound to its own connection. -/
inductive Change (d : PeerDirectory) (fd : Fd) (msg : Message) : PeerDirectory → Prop
  | none : Change d fd msg d
  | register {u : Name} {keys : User} (hmsg : msg.introduces = some (u, keys))
      (hfresh : d.users u = .none) : Change d fd msg (d.register ssl fd u keys)
  | release {u : Name} (hmsg : msg.IsCommand .disconnect)
      (hbound : d.sessions.fdToName fd = some u) : Change d fd msg (d.release fd u)

end PeerDirectory

/-- What a peer is itself, and the connection it is dealing with. A reply is made of these. -/
def PeerContext.self (c : PeerContext) : Bytes × Bytes × Bytes × Fd × UInt64 :=
  (c.encryption.dhKey, c.encryption.identityKey, c.myUsername, c.fd, c.now)

section

variable (ssl : OpenSSL)

/-- The own keys, in the answer to a `CONNECT` or to a `LOGIN`. The second kind is sent by
    `LoginCommand`, which a peer registers as the server does. -/
inductive PeerContext.Reply (c : PeerContext) (msg : Message) : Bytes → Prop
  | connect {m : Message} (hm : Message.new c.now c.myUsername 4 [[CommandType.connect.toByte],
      c.encryption.getDHBytes ssl, c.encryption.getIdentityBytes ssl, c.encryption.sign ssl]
      .response = .ok m) : Reply c msg (Serializer.serialize m)
  | pubkey {username : Bytes} {m : Message}
      (hcode : (msg.getMeta 0).head?.map CommandType.ofByte = some .login)
      (hm : Message.new c.now (c.encryption.getDHBytes ssl) 4 [[CommandType.getPubkey.toByte],
        username, c.encryption.getIdentityBytes ssl, c.encryption.sign ssl] .response = .ok m) :
      Reply c msg (Serializer.serialize m)

/-- The line with which a message is printed. That of a private message is left open: it depends on
    what decryption gives, which is of no use here. -/
inductive Message.Printed (msg : Message) : Bytes → Prop
  | text (htype : msg.getType = .text) :
      Printed msg (bytes "Peer got message " ++ msg.getPayload)
  | cipher {line : Bytes} (htype : msg.getType = .cipherMessage) : Printed msg line

/-- What a message on the current connection leaves of a context. One fact for each of its parts:
    itself, the directory, what is sent and what is printed. All results about received messages are
    read off from this. -/
structure PeerContext.Receives (msg : Message) (c c' : PeerContext) : Prop where
  self : c'.self = c.self
  change : c.directory.Change ssl c.fd msg c'.directory
  sent : ∃ replies, c'.sent = c.sent ++ replies ∧ ∀ r ∈ replies, r.1 = c.fd ∧ c.Reply ssl msg r.2
  shown : ∃ lines, c'.shown = c.shown ++ lines ∧ ∀ line ∈ lines, msg.Printed line

/-- A `DISCONNECT` from nobody: the descriptor has no name, as it has not introduced itself or has
    been released before. -/
def PeerContext.Nameless (c : PeerContext) (msg : Message) : Prop :=
  msg.IsCommand .disconnect ∧ c.sessions.fdToName c.fd = none

/-- The handler does that, and what it fails with is thrown, or else the message is a `DISCONNECT`
    from nobody. -/
abbrev ReceivesAt {α : Type} (msg : Message) (x : PeerContextM α) (c : PeerContext) : Prop :=
  Respects (PeerContext.Receives ssl msg) (fun e => e.IsThrown ∨ c.Nameless msg) x c

end

variable {ssl : OpenSSL} {msg : Message} {c c' : PeerContext}

theorem PeerContext.Receives.quiet (hself : c'.self = c.self)
    (hchange : c.directory.Change ssl c.fd msg c'.directory) (hsent : c'.sent = c.sent)
    (hshown : c'.shown = c.shown) : c.Receives ssl msg c' where
  self := hself
  change := hchange
  sent := ⟨[], hsent.trans (List.append_nil _).symm, fun _ h => by cases h⟩
  shown := ⟨[], hshown.trans (List.append_nil _).symm, fun _ h => by cases h⟩

theorem PeerContext.Receives.refl (c : PeerContext) : c.Receives ssl msg c :=
  .quiet rfl .none rfl rfl

theorem PeerContext.Receives.prints {line : Bytes} (hself : c'.self = c.self)
    (hdirectory : c'.directory = c.directory) (hsent : c'.sent = c.sent)
    (hshown : c'.shown = c.shown ++ [line]) (hline : msg.Printed line) : c.Receives ssl msg c' where
  self := hself
  change := hdirectory ▸ .none
  sent := ⟨[], hsent.trans (List.append_nil _).symm, fun _ h => by cases h⟩
  shown := ⟨[line], hshown, fun _ h => List.mem_singleton.mp h ▸ hline⟩

/-- A reply is made of what a peer is, so it does not matter that the directory has changed before
    it is made. -/
theorem PeerContext.Reply.of_self {raw : Bytes} (hself : c'.self = c.self)
    (h : c'.Reply ssl msg raw) : c.Reply ssl msg raw := by
  obtain ⟨hdh, hed, hname, -, hnow⟩ : c'.encryption.dhKey = c.encryption.dhKey ∧
      c'.encryption.identityKey = c.encryption.identityKey ∧ c'.myUsername = c.myUsername ∧
      c'.fd = c.fd ∧ c'.now = c.now := by
    simpa [PeerContext.self] using hself
  have hdhBytes : c'.encryption.getDHBytes ssl = c.encryption.getDHBytes ssl :=
    congrArg ssl.dhPublic hdh
  have hidentity : c'.encryption.getIdentityBytes ssl = c.encryption.getIdentityBytes ssl :=
    congrArg ssl.edPublic hed
  have hsign : c'.encryption.sign ssl = c.encryption.sign ssl := by
    unfold EncryptionService.sign
    rw [hdh, hed]
  cases h with
  | connect hm =>
    rw [hnow, hname, hdhBytes, hidentity, hsign] at hm
    exact .connect hm
  | pubkey hcode hm =>
    rw [hnow, hdhBytes, hidentity, hsign] at hm
    exact .pubkey hcode hm

/-! ## The parts -/

/-- The keys of others are stored beside the own ones, never over them. -/
theorem cachePublicKey_keeps_own (ssl : OpenSSL) (e : EncryptionService) (u dh ed : Bytes) :
    (e.cachePublicKey ssl u dh ed).2.dhKey = e.dhKey ∧
      (e.cachePublicKey ssl u dh ed).2.identityKey = e.identityKey := by
  unfold EncryptionService.cachePublicKey
  split
  · exact ⟨rfl, rfl⟩
  · dsimp only
    split
    · exact ⟨rfl, rfl⟩
    · exact ⟨rfl, rfl⟩

/-- What is stored of the two keys, in terms of what OpenSSL takes. The first is stored before the
    second is looked at. -/
theorem cachePublicKey_caches (ssl : OpenSSL) (e : EncryptionService) (u dh ed : Bytes) :
    (e.cachePublicKey ssl u dh ed).2.dhKeys
        = (if ssl.dhAccepts dh then e.dhKeys.insert u dh else e.dhKeys) ∧
      (e.cachePublicKey ssl u dh ed).2.identityKeys
        = (if ssl.dhAccepts dh && ssl.edAccepts ed then e.identityKeys.insert u ed
          else e.identityKeys) := by
  unfold EncryptionService.cachePublicKey
  cases ssl.dhAccepts dh with
  | false => exact ⟨rfl, rfl⟩
  | true =>
    cases ssl.edAccepts ed with
    | false => exact ⟨rfl, rfl⟩
    | true => exact ⟨rfl, rfl⟩

/-- The context in which `keys` are stored under `u`, whatever came of the keys. If OpenSSL refuses
    one of them, `cache_public_key` throws, and the directory and the session table keep what they
    have been given before. -/
def PeerContext.introduced (ssl : OpenSSL) (c : PeerContext) (u : Name) (keys : User) :
    PeerContext :=
  { c with
    users := c.users.insert u keys
    sessions := c.sessions.bind c.fd u
    encryption := (c.encryption.cachePublicKey ssl u keys.publicDHKey keys.publicIdentityKey).2 }

theorem introduced_directory (c : PeerContext) (u : Name) (keys : User) :
    (c.introduced ssl u keys).directory = c.directory.register ssl c.fd u keys := by
  obtain ⟨hdh, hed⟩ := cachePublicKey_caches ssl c.encryption u keys.publicDHKey
    keys.publicIdentityKey
  unfold PeerContext.directory PeerDirectory.register PeerContext.introduced
  rw [hdh, hed]

theorem introduced_self (c : PeerContext) (u : Name) (keys : User) :
    (c.introduced ssl u keys).self = c.self := by
  obtain ⟨hdh, hed⟩ := cachePublicKey_keeps_own ssl c.encryption u keys.publicDHKey
    keys.publicIdentityKey
  unfold PeerContext.self PeerContext.introduced
  rw [hdh, hed]

/-- So an introduction is one of the three changes, also when it ends in an exception. -/
theorem introduced_receives {u : Name} {keys : User} (hmsg : msg.introduces = some (u, keys))
    (hfresh : c.users u = none) : c.Receives ssl msg (c.introduced ssl u keys) := by
  refine .quiet (introduced_self c u keys) ?_ rfl rfl
  rw [introduced_directory]
  exact .register hmsg hfresh

/-- A reply goes out, or is too large for a message. The second is possible only with a name of
    gigabytes. -/
theorem sendResponse_run (fd : Fd) (payload : Bytes) (metalen : UInt8) (metadata : List Bytes)
    (c : PeerContext) :
    (∃ m, Message.new c.now payload metalen metadata .response = .ok m ∧
      PeerContext.sendResponse fd payload metalen metadata c
        = .ok () { c with sent := c.sent ++ [(fd, Serializer.serialize m)] }) ∨
    ∃ e, e.IsThrown ∧ PeerContext.sendResponse fd payload metalen metadata c = .error e c := by
  unfold PeerContext.sendResponse
  rw [get_bind_run]
  cases hm : Message.new c.now payload metalen metadata .response with
  | ok m => exact .inl ⟨m, rfl, rfl⟩
  | error e => exact .inr ⟨e, new_isThrown hm, rfl⟩

/-- After what a message does to the directory, a reply. If the reply cannot be made the directory
    keeps the change. -/
theorem PeerContext.Receives.then_reply {payload : Bytes} {metalen : UInt8} {metadata : List Bytes}
    (h : c.Receives ssl msg c') (hsent : c'.sent = c.sent)
    (hreply : ∀ m, Message.new c'.now payload metalen metadata .response = .ok m →
      c.Reply ssl msg (Serializer.serialize m)) :
    Respects (fun _ t => c.Receives ssl msg t) Failure.IsThrown
      (PeerContext.sendResponse c.fd payload metalen metadata) c' := by
  rcases sendResponse_run c.fd payload metalen metadata c' with ⟨m, hm, hrun⟩ | ⟨e, he, hrun⟩
  · refine .of_ok hrun ⟨h.self, h.change, ⟨[(c.fd, Serializer.serialize m)], ?_, ?_⟩, h.shown⟩
    · rw [hsent]
    · intro r hr
      obtain rfl := List.mem_singleton.mp hr
      exact ⟨rfl, hreply m hm⟩
  · refine ⟨?_, fun h' => ?_⟩
    · rw [finalState_error hrun]
      exact h
    · rw [hrun] at h'
      cases h'
      exact he

theorem cachePublicKey_run (ssl : OpenSSL) (u dh ed : Bytes) (c : PeerContext) :
    PeerContext.cachePublicKey ssl u dh ed c
      = liftExcept (c.encryption.cachePublicKey ssl u dh ed).1
          { c with encryption := (c.encryption.cachePublicKey ssl u dh ed).2 } :=
  rfl

/-- The keys are cached last, and may be refused. What has been done then is the same as if they had
    been taken, by the definition of `register`. -/
theorem introduce_respects (ssl : OpenSSL) {u : Name} {keys : User}
    (hmsg : msg.introduces = some (u, keys)) (hfresh : c.users u = none) :
    Respects (fun _ t => c.Receives ssl msg t ∧ t.sent = c.sent ∧ t.self = c.self) Failure.IsThrown
      (PeerContext.cachePublicKey ssl u keys.publicDHKey keys.publicIdentityKey)
      { c with users := c.users.insert u keys, sessions := c.sessions.bind c.fd u } := by
  have hreceives : c.Receives ssl msg (c.introduced ssl u keys) := introduced_receives hmsg hfresh
  have hdone := And.intro hreceives
    (And.intro (show (c.introduced ssl u keys).sent = c.sent from rfl) hreceives.self)
  have hrun := cachePublicKey_run ssl u keys.publicDHKey keys.publicIdentityKey
    { c with users := c.users.insert u keys, sessions := c.sessions.bind c.fd u }
  cases hresult : (c.encryption.cachePublicKey ssl u keys.publicDHKey keys.publicIdentityKey).1 with
  | ok r =>
    rw [hresult] at hrun
    exact .of_ok hrun hdone
  | error e =>
    rw [hresult] at hrun
    refine ⟨?_, fun h' => ?_⟩
    · rw [finalState_error hrun]
      exact hdone
    · rw [hrun] at h'
      cases h'
      exact cachePublicKey_isThrown hresult

/-! ## The handlers -/

/-- The handler that a code leads to. A peer registers five; the other codes of the protocol are
    those of a server, and are passed over. -/
def CommandType.onPeer : CommandType → Option PeerCommand
  | .exit => some .exit
  | .connect => some .connect
  | .disconnect => some .disconnect
  | .privateMessage => some .pmess
  | .login => some .login
  | _ => none

/-- The registry is asked for a name, which is looked up for the code first. Both tables together
    give the same as one. -/
theorem find_onPeer (msg : Message) :
    PeerCommandRegistry.find (Parser.makeStructFromCommand msg).name
      = ((msg.getMeta 0).head?.map CommandType.ofByte).bind CommandType.onPeer := by
  have hname (code : CommandType) :
      PeerCommandRegistry.find ((commandNamesMap code).getD (bytes "unknown")) = code.onPeer := by
    cases code <;> rfl
  unfold Parser.makeStructFromCommand
  cases msg.getMeta 0 with
  | nil => rfl
  | cons code rest =>
    dsimp only
    rw [hname]
    rfl

theorem ofByte_disconnect (code : UInt8) :
    CommandType.ofByte code = .disconnect → code = CommandType.disconnect.toByte := by
  revert code
  exact forall_byte (by decide +kernel)

/-- `std::stoi` throws for what is not a number, and for a number that is too large. -/
theorem stoi_isThrown {text : Bytes} {e : Failure} (h : stoi text = .error e) : e.IsThrown := by
  have hdigits {negative : Bool} {text : Bytes} (h : stoiDigits negative text = .error e) :
      e.IsThrown := by
    unfold stoiDigits at h
    extract_lets digits magnitude value at h
    split at h
    · cases h
      exact isThrown_runtimeError _
    · split at h
      · cases h
      · cases h
        exact isThrown_runtimeError _
  unfold stoi at h
  split at h
  · exact hdigits h
  · exact hdigits h
  · exact hdigits h

theorem ReceivesAt.of_thrown {α : Type} {x : PeerContextM α}
    (h : Respects (fun _ t => c.Receives ssl msg t) Failure.IsThrown x c) :
    ReceivesAt ssl msg x c :=
  ⟨h.state, fun he => .inl (h.fails he)⟩

theorem registerUser_error {users : UserService} {u dh ed sig : Bytes} {e : ServiceError}
    (h : users.registerUser u dh ed sig = .error e) : e = .alreadyExists := by
  unfold UserService.registerUser at h
  split at h
  · cases h
    rfl
  · cases h

/-- A `CONNECT`. A name that is taken ends it without a word; a new one is entered, its keys are
    cached, and the own ones are sent back. The order matters for what is left when one of these
    fails. -/
theorem connectCommand_receives {cmd : ConnectCommand}
    (hmsg : msg.introduces = some (cmd.username, ⟨cmd.dhBytes, cmd.identityBytes, cmd.signature⟩))
    (c : PeerContext) :
    Respects (fun _ t => c.Receives ssl msg t) Failure.IsThrown (cmd.recvOnPeer ssl c.fd) c := by
  refine .get_bind ?_
  cases hregister : c.users.registerUser cmd.username cmd.dhBytes cmd.identityBytes
      cmd.signature with
  | error e =>
    obtain rfl : e = .alreadyExists := registerUser_error hregister
    exact .pure _ (.refl c)
  | ok users =>
    obtain ⟨hfresh, rfl⟩ := registerUser_ok hregister
    have hcache := introduce_respects ssl hmsg hfresh
    -- from here on the name is registered, whatever happens
    refine .after_ok rfl (hcache.bind (R := fun _ t => c.Receives ssl msg t) ?_ ?_ ?_) fun _ h => h
    · rintro u t ⟨hreceives, hsent, hself⟩
      refine .get_bind (hreceives.then_reply hsent fun m hm => ?_)
      exact PeerContext.Reply.of_self hself (.connect hm)
    · exact fun t ht => ht.1
    · exact fun t u _ hu => hu

/-- The port is converted before anything else, and is not used for anything. So a `CONNECT` whose
    port is not a number is not heard. -/
theorem connect_receives (htype : msg.getType = .command)
    (hcode : (msg.getMeta 0).head?.map CommandType.ofByte = some .connect) (c : PeerContext) :
    Respects (fun _ t => c.Receives ssl msg t) Failure.IsThrown
      (PeerCommand.connect.receive ssl msg c.fd) c := by
  show Respects _ _ (liftExcept (ConnectCommand.fromMessage msg) >>= fun cmd =>
    cmd.recvOnPeer ssl c.fd) c
  unfold ConnectCommand.fromMessage
  cases hport : stoi (msg.getMeta 2) with
  | error e => exact .throw (.refl c) (stoi_isThrown hport)
  | ok port =>
    refine connectCommand_receives ?_ c
    unfold Message.introduces
    rw [hcode, htype]

theorem login_receives (hcode : (msg.getMeta 0).head?.map CommandType.ofByte = some .login)
    (username : Bytes) (c : PeerContext) :
    Respects (fun _ t => c.Receives ssl msg t) Failure.IsThrown
      (LoginCommand.recvOnPeer ssl username c.fd) c :=
  .get_bind ((PeerContext.Receives.refl c).then_reply rfl fun _ hm => .pubkey hcode hm)

/-- The name of the descriptor is released, whatever name the message has. -/
theorem disconnect_bound {u : Name} (h : c.sessions.fdToName c.fd = some u) :
    DisconnectCommand.recvOnPeer c.fd c
      = .ok () { c with users := c.users.erase u, sessions := c.sessions.unbind c.fd } := by
  have hname : c.sessions.getUsername c.fd = .ok u := getUsername_ok_iff.mpr h
  unfold DisconnectCommand.recvOnPeer
  rw [get_bind_run, hname]
  rfl

/-- The result of `get_username` is dereferenced without being looked at. -/
theorem disconnect_nameless (h : c.sessions.fdToName c.fd = none) :
    DisconnectCommand.recvOnPeer c.fd c = .error .outOfBounds c := by
  have hname : c.sessions.getUsername c.fd = .error .userNotFound := by
    unfold SessionManager.getUsername
    rw [h]
  unfold DisconnectCommand.recvOnPeer
  rw [get_bind_run, hname]
  rfl

theorem disconnect_receives (hmsg : msg.IsCommand .disconnect) (c : PeerContext) :
    ReceivesAt ssl msg (DisconnectCommand.recvOnPeer c.fd) c := by
  cases hname : c.sessions.fdToName c.fd with
  | none =>
    have hrun := disconnect_nameless hname
    refine ⟨?_, fun _ => .inr ⟨hmsg, hname⟩⟩
    rw [finalState_error hrun]
    exact .refl c
  | some u =>
    exact .of_ok (disconnect_bound hname) (.quiet rfl (.release hmsg hname) rfl rfl)

/-- One case for each code that has a handler. Only a `DISCONNECT` can fail without throwing. -/
theorem command_receives (htype : msg.getType = .command) (c : PeerContext) :
    ReceivesAt ssl msg (PeerCommandBus.dispatchReceiving ssl msg) c := by
  unfold PeerCommandBus.dispatchReceiving
  rw [find_onPeer]
  cases hcode : (msg.getMeta 0).head?.map CommandType.ofByte with
  | none => exact .pure _ (.refl c)
  | some code =>
    rw [Option.bind_some]
    cases code with
    | exit => exact .get_bind (.pure _ (.refl c))
    | connect => exact .get_bind (ReceivesAt.of_thrown (connect_receives htype hcode c))
    | disconnect =>
      obtain ⟨byte, hbyte, hdisconnect⟩ := Option.map_eq_some_iff.mp hcode
      rw [ofByte_disconnect byte hdisconnect] at hbyte
      exact .get_bind (disconnect_receives ⟨htype, hbyte⟩ c)
    | privateMessage => exact .get_bind (.pure _ (.refl c))
    | login => exact .get_bind (ReceivesAt.of_thrown (login_receives hcode _ c))
    | _ => exact .pure _ (.refl c)

/-- A private message. Its counter is entered for the sender first, and decryption may fail after
    that; either way the directory is as it was. -/
theorem cipher_receives (htype : msg.getType = .cipherMessage) (c : PeerContext) :
    Respects (fun _ t => c.Receives ssl msg t) Failure.IsThrown
      (PeerCipherHandler.handleReceiving ssl msg) c := by
  let counter := (c.messagesCounter (msg.getMeta 0)).getD 0
  let entered := { c with messagesCounter := c.messagesCounter.insert (msg.getMeta 0) counter }
  have hentered : c.Receives ssl msg entered := .quiet rfl .none rfl rfl
  refine .get_bind (.set_bind (?_ : Respects (fun _ t => c.Receives ssl msg t) _ _ _)
    fun _ h => h)
  cases hdecrypt : c.encryption.decryptFor ssl (msg.getMeta 0) c.myUsername msg.getPayload
      (msg.getMeta 1) counter with
  | error e => exact .throw hentered (decryptFor_isThrown hdecrypt)
  | ok text => exact .modify (PeerContext.Receives.prints rfl rfl rfl rfl (.cipher htype))

/-- The response to a `CONNECT`. It is taken whether or not there was one: nothing is remembered
    about having asked. -/
theorem connectResponse_receives (htype : msg.getType = .response)
    (hcode : (msg.getMeta 0).head?.map CommandType.ofByte = some .connect) (c : PeerContext) :
    Respects (fun _ t => c.Receives ssl msg t) Failure.IsThrown
      (PeerResponseHandler.handleConnectResponse ssl msg) c := by
  refine .get_bind ?_
  cases hregister : c.users.registerUser msg.getPayload (msg.getMeta 1) (msg.getMeta 2)
      (msg.getMeta 3) with
  | error e => exact .pure _ (.refl c)
  | ok users =>
    obtain ⟨hfresh, rfl⟩ := registerUser_ok hregister
    have hmsg : msg.introduces = some (msg.getPayload,
        ⟨msg.getMeta 1, msg.getMeta 2, msg.getMeta 3⟩) := by
      unfold Message.introduces
      rw [hcode, htype]
    exact .set_bind (introduce_respects ssl hmsg hfresh) fun _ ht => ht.1

/-- Only the response to a `CONNECT` does something; the others are passed over. -/
theorem response_receives (htype : msg.getType = .response) (c : PeerContext) :
    Respects (fun _ t => c.Receives ssl msg t) Failure.IsThrown
      (PeerResponseHandler.handleReceiving ssl msg) c := by
  unfold PeerResponseHandler.handleReceiving
  cases hmeta : msg.getMeta 0 with
  | nil => exact .pure _ (.refl c)
  | cons code rest =>
    dsimp only
    split
    · rename_i hconnect
      refine connectResponse_receives htype ?_ c
      rw [hmeta, List.head?_cons, Option.map_some, hconnect]
    · exact .pure _ (.refl c)

/-- **What a handler does with a message.** One case for each type; most of them are done above, and
    the rest do nothing. -/
theorem handler_receives {handle : Message → PeerContextM Unit}
    (h : PeerMessageDispatcher.receivingHandler ssl msg.getType = some handle) (c : PeerContext) :
    ReceivesAt ssl msg (handle msg) c := by
  cases htype : msg.getType with
  | text =>
    rw [htype] at h
    cases h
    exact .modify (.prints rfl rfl rfl rfl (.text htype))
  | command =>
    rw [htype] at h
    cases h
    exact command_receives htype c
  | cipherMessage =>
    rw [htype] at h
    cases h
    exact .of_thrown (cipher_receives htype c)
  | response =>
    rw [htype] at h
    cases h
    exact .of_thrown (response_receives htype c)
  | handShake =>
    rw [htype] at h
    cases h
  | other code unnamed =>
    rw [htype] at h
    cases h
  | _ =>
    rw [htype] at h
    cases h
    exact .pure _ (.refl c)

/-! ## The callback -/

/-- The dispatcher catches what is thrown, so what is left of the failures is the one that is
    not. -/
theorem dispatchReceiving_receives (ssl : OpenSSL) (msg : Message) (c : PeerContext) :
    Respects (PeerContext.Receives ssl msg) (fun _ => c.Nameless msg)
      (PeerMessageDispatcher.dispatchReceiving ssl msg) c := by
  unfold PeerMessageDispatcher.dispatchReceiving
  cases hhandler : PeerMessageDispatcher.receivingHandler ssl msg.getType with
  | none => exact .pure _ (.refl c)
  | some handle =>
    have hhandle := (handler_receives hhandler c).bind_pure fun _ => true
    exact hhandle.catchWith (fun _ h => h) false

/-- The one thing that is not thrown, and so not caught: the dispatcher's `catch` is for
    `std::exception`. -/
theorem dispatchReceiving_nameless (h : c.Nameless msg) :
    PeerMessageDispatcher.dispatchReceiving ssl msg c = .error .outOfBounds c := by
  have hbus : PeerCommandBus.dispatchReceiving ssl msg c = .error .outOfBounds c := by
    unfold PeerCommandBus.dispatchReceiving
    rw [find_onPeer, h.1.code]
    exact disconnect_nameless h.2
  unfold PeerMessageDispatcher.dispatchReceiving
  rw [h.1.type]
  show catchWith false (PeerCommandBus.dispatchReceiving ssl msg >>= fun _ => pure true) c = _
  unfold catchWith
  rw [bind_error hbus]

theorem onData_error (ssl : OpenSSL) {raw : Bytes} {x : Failure}
    (h : Serializer.deserialize raw = .error x) (fd : Fd) (c : PeerContext) :
    PeerContext.onData ssl fd raw c = .error x c := by
  unfold PeerContext.onData
  rw [h]
  rfl

theorem onData_ok {raw : Bytes} (h : Serializer.deserialize raw = .ok msg) (fd : Fd)
    (c : PeerContext) :
    PeerContext.onData ssl fd raw c
      = (PeerMessageDispatcher.dispatchReceiving ssl msg >>= fun _ => pure ())
          { c with fd := fd } := by
  unfold PeerContext.onData
  rw [h]
  rfl

/-- What the callback leaves of a context, for bytes that can be decoded. The descriptor is set
    first, so this is about the context with that descriptor. -/
theorem onData_receives (ssl : OpenSSL) {raw : Bytes} (h : Serializer.deserialize raw = .ok msg)
    (fd : Fd) (c : PeerContext) :
    PeerContext.Receives ssl msg { c with fd := fd }
      (finalState (PeerContext.onData ssl fd raw) c) := by
  rw [finalState_congr (onData_ok h fd c), finalState_bind_pure]
  exact (dispatchReceiving_receives ssl msg { c with fd := fd }).state

/-- The three ways a call of the callback can end. The bytes are no message, and the serializer
    throws before anything has changed; they are the one message that nothing can be thrown for;
    or the dispatcher catches whatever the handler throws, and the call returns. -/
theorem onData_cases (ssl : OpenSSL) (fd : Fd) (raw : Bytes) (c : PeerContext) :
    (∃ x, Serializer.deserialize raw = .error x ∧ PeerContext.onData ssl fd raw c = .error x c) ∨
    ∃ msg, Serializer.deserialize raw = .ok msg ∧
      (PeerContext.Nameless { c with fd := fd } msg ∧
          PeerContext.onData ssl fd raw c = .error .outOfBounds { c with fd := fd } ∨
        ¬PeerContext.Nameless { c with fd := fd } msg ∧
          ∃ c', PeerContext.onData ssl fd raw c = .ok () c') := by
  cases hmsg : Serializer.deserialize raw with
  | error x => exact .inl ⟨x, rfl, onData_error ssl hmsg fd c⟩
  | ok msg =>
    refine .inr ⟨msg, rfl, ?_⟩
    rw [onData_ok hmsg]
    by_cases hnameless : PeerContext.Nameless { c with fd := fd } msg
    · exact .inl ⟨hnameless, bind_error (dispatchReceiving_nameless hnameless)⟩
    · refine .inr ⟨hnameless, ?_⟩
      cases hrun : PeerMessageDispatcher.dispatchReceiving ssl msg { c with fd := fd } with
      | ok handled c' => exact ⟨c', bind_ok hrun⟩
      | error e c' =>
        have hfails := (dispatchReceiving_receives ssl msg { c with fd := fd }).fails hrun
        exact absurd hfails hnameless

/-- **What a call of the callback comes to.** It throws exactly if the bytes do not begin with a
    frame, and then nothing has changed. It uses a value that is not there exactly for a
    `DISCONNECT` on a descriptor without a name: this is not thrown, nothing can catch it, and what
    the process does is undefined. For all other bytes it returns. -/
theorem peer_callback_outcome (ssl : OpenSSL) (c : PeerContext) (fd : Fd) (raw : Bytes)
    (hraw : raw.length < 2 ^ 32) :
    ((∃ e, e.IsThrown ∧ PeerContext.onData ssl fd raw c = .error e c) ↔ ¬WellFormed raw) ∧
    ((∃ c', PeerContext.onData ssl fd raw c = .error .outOfBounds c') ↔
      ∃ msg, Serializer.deserialize raw = .ok msg ∧ msg.IsCommand .disconnect ∧
        c.sessions.fdToName fd = none) ∧
    ((∃ c', PeerContext.onData ssl fd raw c = .ok () c') ↔
      ∃ msg, Serializer.deserialize raw = .ok msg ∧
        ¬(msg.IsCommand .disconnect ∧ c.sessions.fdToName fd = none)) := by
  rw [← deserialize_ok_iff hraw]
  rcases onData_cases ssl fd raw c with ⟨x, hx, hrun⟩ | ⟨msg, hmsg, ⟨hnameless, hrun⟩ |
    ⟨hnamed, c', hrun⟩⟩
  · have hthrown : x.IsThrown := deserialize_isThrown hx
    rw [hrun, hx]
    refine ⟨iff_of_true ⟨x, hthrown, rfl⟩ ?_, iff_of_false ?_ ?_, iff_of_false ?_ ?_⟩
    · rintro ⟨m, ⟨⟩⟩
    · rintro ⟨c', ⟨⟩⟩
      exact hthrown
    · rintro ⟨m, ⟨⟩, -⟩
    · rintro ⟨c', ⟨⟩⟩
    · rintro ⟨m, ⟨⟩, -⟩
  · rw [hrun, hmsg]
    refine ⟨iff_of_false ?_ (not_not_intro ⟨msg, rfl⟩), iff_of_true ⟨_, rfl⟩ ⟨msg, rfl, hnameless⟩,
      iff_of_false ?_ ?_⟩
    · rintro ⟨e, hthrown, hsame⟩
      obtain ⟨rfl, -⟩ := EStateM.Result.error.inj hsame
      exact hthrown
    · rintro ⟨c', ⟨⟩⟩
    · rintro ⟨m, ⟨⟩, hnot⟩
      exact hnot hnameless
  · rw [hrun, hmsg]
    refine ⟨iff_of_false ?_ (not_not_intro ⟨msg, rfl⟩), iff_of_false ?_ ?_,
      iff_of_true ⟨c', rfl⟩ ⟨msg, rfl, hnamed⟩⟩
    · rintro ⟨e, -, ⟨⟩⟩
    · rintro ⟨c', ⟨⟩⟩
    · rintro ⟨m, ⟨⟩, hnameless⟩
      exact hnamed hnameless

theorem peer_callback_text_returns :
    ∃ c', PeerContext.onData clearSSL 5 (bytes "\x00\x00\x00\x00\x00\x02hi")
      { encryption := { dhKey := [], identityKey := [], entropy := zeroEntropy } } = .ok () c' := by
  refine (peer_callback_outcome clearSSL _ 5 _ (by decide)).2.2.mpr ⟨_, rfl, ?_⟩
  rintro ⟨hdisconnect, -⟩
  exact absurd hdisconnect.type (by decide)

/-- Nine bytes from a stranger. -/
example (c : PeerContext) (h : c.sessions.fdToName 5 = none) :
    PeerContext.onData clearSSL 5 [0x01, 0x01, 0x00, 0x01, 0x0C, 0x00, 0x00, 0x00, 0x00] c
      = .error .outOfBounds { c with fd := 5 } := by
  rw [onData_ok rfl]
  exact bind_error (dispatchReceiving_nameless ⟨⟨rfl, rfl⟩, h⟩)

end Messenger
