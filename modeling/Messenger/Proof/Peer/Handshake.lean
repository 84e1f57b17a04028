import Messenger.Proof.Peer.Network
import Messenger.Proof.Peer.Writing

/-!
# How two peers get to know each other

`/connect` makes a peer send its name and its keys; the other stores them and answers with its
own; the first stores those. Here the exchange is followed from the line to the end, through the
buffers of both nodes: if neither has the other's name in its directory, both have the other's keys
at the end, under the right name and for the right connection (`handshake_completes`).

Others may do what they like in the meantime.

Six events make the exchange: `/connect`, the accepting of the connection, the request written and
read, the response written and read. Each event has a lemma in three layers. At the bottom
`PeerNode.Serves` says that one connection of a node is open, with what is in its two buffers, and
what each call of the node does to them. In the middle are the two callbacks, `connect_onData` and
`response_onData`, as functions of a context. At the top `handle_received` and the like put the two
together for a running peer.

The hard part is the middle one. A request has to be decoded, dispatched and taken apart by a
handler that converts the port, registers the name, binds it, stores two keys and makes a message
of its own, and most of these steps may fail. That none does rests on lengths: keys of 32 bytes and
signatures of 64 fit into entries, and a name that was typed fits into a packet (`Ready`).
-/

set_option autoImplicit false

namespace Messenger

open Messenger.Lib PeerNode

variable {P : Type} {ssl : OpenSSL}

/-! ## One connection of a node -/

section

variable {s : PeerNode} {fd : Fd} {session : Session} {data : Bytes}

/-- The connection is open: its events are handled. Handler, registry and loop have to agree on
    this, and each has its field. It is stated for one descriptor, so others may be in any state. -/
structure PeerNode.Serves (s : PeerNode) (fd : Fd) (session : Session) : Prop where
  initialized : s.initialized = true
  peers : s.peers fd = some ()
  byFd : s.byFd fd = some session
  watched : ∃ interest, s.watched fd = some interest

theorem PeerNode.Serves.wrote (h : s.Serves fd session) (session' : Session) (interest : Bool) :
    (s.wrote fd session' interest).Serves fd session' where
  initialized := h.initialized
  peers := h.peers
  byFd := Table.insert_self ..
  watched := ⟨interest, Table.insert_self ..⟩

theorem PeerNode.Serves.setSession (h : s.Serves fd session) (session' : Session) :
    (s.setSession fd session').Serves fd session' :=
  ⟨h.initialized, h.peers, Table.insert_self .., h.watched⟩

/-- A new connection is open. A descriptor that the loop watches already keeps its interest. -/
theorem registerPeerConnection_serves (session : Session) (hinit : s.initialized = true)
    (hfree : s.byFd session.fd = none) :
    ∃ s', registerPeerConnection session s = .ok 0 s' ∧ s'.Serves session.fd session := by
  -- watched from before or not, it is watched now
  obtain ⟨interest, hadd⟩ : ∃ interest,
      addFd session.fd { s with peers := s.peers.insert session.fd () }
        = .ok () { s with
            peers := s.peers.insert session.fd ()
            watched := s.watched.insert session.fd interest } := by
    unfold addFd
    rw [get_bind_run]
    cases hwatched : s.watched session.fd with
    | none => exact ⟨false, rfl⟩
    | some interest =>
      refine ⟨interest, ?_⟩
      rw [Table.insert_eq_self hwatched]
      rfl
  have hpeer : addPeer session s = .ok () { s with peers := s.peers.insert session.fd () } := rfl
  unfold registerPeerConnection
  rw [get_bind_run, hfree]
  dsimp only
  rw [bind_ok hpeer, bind_ok hadd]
  cases s.callbacks.onPeerConnected with
  | true =>
    exact ⟨_, rfl, hinit, Table.insert_self .., Table.insert_self .., _, Table.insert_self ..⟩
  | false =>
    exact ⟨_, rfl, hinit, Table.insert_self .., Table.insert_self .., _, Table.insert_self ..⟩

theorem sendToPeer_serves (h : s.Serves fd session) (data : Bytes) :
    sendToPeer fd data s = .ok () (s.wrote fd
      { session with out := FramerMessage.formMessage data session.out } true) := by
  obtain ⟨interest, hwatched⟩ := h.watched
  unfold sendToPeer
  rw [get_bind_run, h.byFd]
  exact setWriteInterest_run hwatched _ true

/-- The buffer is written in one go, and the interest in writing ends. -/
theorem onPeerWritable_serves (h : s.Serves fd session) (hne : session.out ≠ []) :
    onPeerWritable fd (PeerNetwork.allWritten session.out) s
      = .ok () (s.wrote fd { session with out := [] } false) := by
  obtain ⟨interest, hwatched⟩ := h.watched
  unfold onPeerWritable
  rw [bind_ok (sessionAt_some h.byFd), PeerNetwork.flushBuffer_allWritten session.transport hne]
  exact setWriteInterest_run hwatched _ false

/-- What is queued for the connection when messages are sent to it. -/
def queued (replies : List Bytes) (out : Bytes) : Bytes :=
  replies.foldl (fun out data => FramerMessage.formMessage data out) out

theorem sendAll_serves (replies : List Bytes) (h : s.Serves fd session) :
    ∃ s', (replies.map fun data => (fd, data)).forM (fun sent => sendToPeer sent.1 sent.2) s
        = .ok () s' ∧
      s'.Serves fd { session with out := queued replies session.out } ∧
      s'.handedOn = s.handedOn := by
  induction replies generalizing s session with
  | nil => exact ⟨s, rfl, h, rfl⟩
  | cons data replies ih =>
    obtain ⟨s', hrun, hserves, hhanded⟩ := ih (h.wrote
      { session with out := FramerMessage.formMessage data session.out } true)
    exact ⟨s', (bind_ok (sendToPeer_serves h data)).trans hrun, hserves, hhanded⟩

/-- A message is handed on, and the callback answers on the same connection. What it would answer
    elsewhere is not needed here. -/
theorem onData_serves {callback : List (Fd × Bytes) → DataAnswer} {replies : List Bytes}
    {raw : Bytes} (h : s.Serves fd session) (hcallback : s.callbacks.onData = some callback)
    (hanswer : callback (s.handedOn ++ [(fd, raw)])
      = { sent := replies.map fun data => (fd, data) }) :
    ∃ s', PeerEventHandler.onData fd raw s = .ok () s' ∧
      s'.Serves fd { session with out := queued replies session.out } ∧
      s'.handedOn = s.handedOn ++ [(fd, raw)] := by
  have hcalled : { s with handedOn := s.handedOn ++ [(fd, raw)] }.Serves fd session :=
    ⟨h.initialized, h.peers, h.byFd, h.watched⟩
  obtain ⟨s', hsent, hserves, hhanded⟩ := sendAll_serves replies hcalled
  have hset : (set { s with handedOn := s.handedOn ++ [(fd, raw)] } : PeerM PUnit) s
      = .ok ⟨⟩ { s with handedOn := s.handedOn ++ [(fd, raw)] } := rfl
  refine ⟨s', ?_, hserves, hhanded⟩
  unfold PeerEventHandler.onData
  rw [get_bind_run, hcallback]
  dsimp only
  rw [bind_ok hset, hanswer, bind_ok hsent]
  rfl

/-- The loop takes a frame from the buffer, and finds nothing behind it: two turns, and any number
    more are allowed. -/
theorem handleMessages_serves {callback : List (Fd × Bytes) → DataAnswer} {replies : List Bytes}
    {raw : Bytes} (hraw : raw.length < 2 ^ 32 - 4) (hbuffer : session.inBuffer = frame raw)
    (h : s.Serves fd session) (hcallback : s.callbacks.onData = some callback)
    (hanswer : callback (s.handedOn ++ [(fd, raw)])
      = { sent := replies.map fun data => (fd, data) }) (turns : Nat) :
    ∃ s', PeerEventHandler.handleMessages fd (turns + 2) s = .ok () s' ∧
      s'.Serves fd { session with inBuffer := [], out := queued replies session.out } ∧
      s'.handedOn = s.handedOn ++ [(fd, raw)] := by
  obtain ⟨hhas, hextract⟩ : FramerMessage.hasMessageInBuffer session.inBuffer = true ∧
      FramerMessage.extractMessage session.inBuffer = .ok (raw, []) := by
    have hnext := nextMessage_frameDecoder.whole hraw []
    rw [List.append_nil, ← hbuffer] at hnext
    exact nextMessage_eq_some hnext
  have htaken := h.setSession { session with inBuffer := [] }
  obtain ⟨s', hdata, hserves, hhanded⟩ := onData_serves htaken hcallback hanswer
  have hmodify : (modify fun s => s.setSession fd { session with inBuffer := [] } : PeerM PUnit) s
      = .ok ⟨⟩ (s.setSession fd { session with inBuffer := [] }) := rfl
  have hempty : PeerEventHandler.handleMessages fd (turns + 1) s' = .ok () s' := by
    unfold PeerEventHandler.handleMessages
    rw [bind_ok (sessionAt_some hserves.byFd)]
    rfl
  refine ⟨s', ?_, hserves, hhanded⟩
  unfold PeerEventHandler.handleMessages
  rw [bind_ok (sessionAt_some h.byFd), if_pos hhas, hextract]
  dsimp only
  rw [bind_ok hmodify, bind_ok hdata]
  exact hempty

/-- A packet with one frame comes. The loop gets a turn for each byte and one more, which are at
    least the two it needs, since a frame has four bytes of header. -/
theorem handleEvent_serves {callback : List (Fd × Bytes) → DataAnswer} {replies : List Bytes}
    {raw : Bytes} (hraw : raw.length < 2 ^ 32 - 4) (hbuffer : session.inBuffer = [])
    (h : s.Serves fd session) (hcallback : s.callbacks.onData = some callback)
    (hanswer : callback (s.handedOn ++ [(fd, raw)])
      = { sent := replies.map fun data => (fd, data) }) :
    ∃ s', PeerEventHandler.handleEvent
        { fd := fd, mask := EPOLLIN, received := ⟨.ok, frame raw, 0⟩ } s = .ok () s' ∧
      s'.Serves fd { session with out := queued replies session.out } ∧
      s'.handedOn = s.handedOn ++ [(fd, raw)] := by
  let e : PeerEvent := { fd := fd, mask := EPOLLIN, received := ⟨.ok, frame raw, 0⟩ }
  have hcame := h.setSession { session with inBuffer := frame raw }
  obtain ⟨s', hmessages, hserves, hhanded⟩ :=
    handleMessages_serves hraw rfl hcame hcallback hanswer (raw.length + 3)
  have hreceive : PeerEventHandler.receive e s = .ok true s' := by
    have htry : PeerEventHandler.tryReceive session ⟨.ok, frame raw, 0⟩
        = (true, { session with inBuffer := frame raw }) := by
      unfold PeerEventHandler.tryReceive
      rw [hbuffer]
      rfl
    have hset : (set (s.setSession fd { session with inBuffer := frame raw }) : PeerM PUnit) s
        = .ok ⟨⟩ (s.setSession fd { session with inBuffer := frame raw }) := rfl
    have hturns : (frame raw).length + 1 = raw.length + 3 + 2 := by
      rw [frame_length]
      omega
    unfold PeerEventHandler.receive
    rw [get_bind_run, h.peers]
    dsimp only
    rw [h.byFd]
    dsimp only [e]
    rw [htry, bind_ok hset, if_pos rfl, hturns, bind_ok hmessages]
    rfl
  have hup : EPOLLIN &&& (EPOLLERR ||| EPOLLHUP ||| EPOLLRDHUP) = 0 := by decide
  have hin : EPOLLIN &&& EPOLLIN ≠ 0 := by decide
  have hout : EPOLLIN &&& EPOLLOUT = 0 := by decide
  refine ⟨s', ?_, ?_, hhanded⟩
  · rw [peerEvent_ready h.initialized hup]
    dsimp only
    rw [if_pos hin, bind_ok hreceive, if_neg (by simp [hout])]
    rfl
  · rw [hbuffer]
    exact hserves

end

/-! ## What the two sides do with each other's keys -/

section

variable {c : PeerContext} {u : Name} {keys : User} {raw : Bytes} {fd : Fd} {m : Message}

/-- The peer has `u` on the connection `fd`, with these keys in all tables. -/
structure PeerContext.Knows (c : PeerContext) (u : Name) (fd : Fd) (keys : User) : Prop where
  users : c.users u = some keys
  fdToName : c.sessions.fdToName fd = some u
  nameToFd : c.sessions.nameToFd u = some fd
  dhKeys : c.encryption.dhKeys u = some keys.publicDHKey
  identityKeys : c.encryption.identityKeys u = some keys.publicIdentityKey

/-- OpenSSL takes the keys. It does for keys it has made. -/
structure OpenSSL.Accepts (ssl : OpenSSL) (keys : User) : Prop where
  dh : ssl.dhAccepts keys.publicDHKey = true
  ed : ssl.edAccepts keys.publicIdentityKey = true

theorem publicKeys_accepted (hssl : ssl.Correct) (e : EncryptionService) :
    ssl.Accepts (e.publicKeys ssl) := ⟨hssl.dh_accepts _, hssl.ed_accepts _⟩

/-- After an introduction with keys that OpenSSL takes, all five tables have them. -/
theorem introduced_knows (hkeys : ssl.Accepts keys) (c : PeerContext) (u : Name) :
    (c.introduced ssl u keys).Knows u c.fd keys := by
  obtain ⟨hdh, hed⟩ := cachePublicKey_caches ssl c.encryption u keys.publicDHKey
    keys.publicIdentityKey
  rw [hkeys.dh] at hdh hed
  rw [hkeys.ed] at hed
  refine ⟨Table.insert_self .., Table.insert_self .., Table.insert_self .., ?_, ?_⟩
  · unfold PeerContext.introduced
    rw [hdh]
    exact Table.insert_self ..
  · unfold PeerContext.introduced
    rw [hed]
    exact Table.insert_self ..

/-- An introduction does not change the own keys, so the response can be made before or after it. -/
theorem introduced_publicKeys (c : PeerContext) (u : Name) (keys : User) :
    (c.introduced ssl u keys).encryption.publicKeys ssl = c.encryption.publicKeys ssl := by
  obtain ⟨hdh, hed⟩ := cachePublicKey_keeps_own ssl c.encryption u keys.publicDHKey
    keys.publicIdentityKey
  unfold EncryptionService.publicKeys EncryptionService.getDHBytes
    EncryptionService.getIdentityBytes EncryptionService.sign PeerContext.introduced
  rw [hdh, hed]

theorem cachePublicKey_introduces (hkeys : ssl.Accepts keys) (c : PeerContext) (u : Name) :
    PeerContext.cachePublicKey ssl u keys.publicDHKey keys.publicIdentityKey
        { c with users := c.users.insert u keys, sessions := c.sessions.bind c.fd u }
      = .ok () (c.introduced ssl u keys) := by
  have hok : (c.encryption.cachePublicKey ssl u keys.publicDHKey keys.publicIdentityKey).1
      = .ok () := by
    unfold EncryptionService.cachePublicKey
    rw [hkeys.dh, hkeys.ed]
    rfl
  rw [cachePublicKey_run]
  dsimp only
  rw [hok]
  rfl

/-- A new name is registered with its keys, in two steps of which the first leaves them empty. -/
theorem registerUser_fresh {users : UserService} (h : users u = none) (keys : User) :
    users.registerUser u keys.publicDHKey keys.publicIdentityKey keys.signature
      = .ok (users.insert u keys) := by
  unfold UserService.registerUser
  rw [h]
  dsimp only
  unfold UserService.setPublicKey
  rw [Table.insert_self]
  exact congrArg Except.ok (Table.insert_insert ..)

/-- The own name and keys, in a `CONNECT`. The name is the payload. -/
def PeerContext.request (ssl : OpenSSL) (c : PeerContext) (ip : Bytes) (port : Int) :
    Except Failure Message :=
  Message.new c.now c.myUsername 6 [[CommandType.connect.toByte], ip, bytes (toString port),
    (c.encryption.publicKeys ssl).publicDHKey, (c.encryption.publicKeys ssl).publicIdentityKey,
    (c.encryption.publicKeys ssl).signature] .command

/-- The own name and keys, in the response to one. -/
def PeerContext.response (ssl : OpenSSL) (c : PeerContext) : Except Failure Message :=
  Message.new c.now c.myUsername 4 [[CommandType.connect.toByte],
    (c.encryption.publicKeys ssl).publicDHKey, (c.encryption.publicKeys ssl).publicIdentityKey,
    (c.encryption.publicKeys ssl).signature] .response

theorem new_arrives {now : UInt64} {metalen : UInt8} {type : MessageType} {metadata : List Bytes}
    (htype : type ∈ [MessageType.command, .response]) (hcount : metadata.length ≤ 6)
    (hentries : ∀ e ∈ metadata, e.length ≤ 65535) (hu : u.length < 2 ^ 30) :
    ∃ m, Message.new now u metalen metadata type = .ok m ∧
      (Serializer.serialize m).length < 2 ^ 32 - 4 ∧
      Carries (Serializer.serialize m) (.plain type metadata u) := by
  have hcode : ∀ type ∈ [MessageType.command, .response], 0 ≤ type.code ∧ type.code ≤ 255 := by
    decide
  have hfits : (Content.plain type metadata u).FitsCompact :=
    Content.plain_fits (hcode type htype) (by omega) hentries (by omega)
  obtain ⟨m, hm, -⟩ := new_carries now metalen hfits
  have hcontent := new_content hm
  obtain ⟨hbuilt, hmetadata⟩ := new_built hm
  have hpayload : m.payload = u := congrArg Content.payload hcontent
  have harrives := hbuilt.arrives (by rw [hcontent]; exact hcode type htype)
    (by rw [hmetadata]; exact hcount) (by rw [hmetadata]; exact hentries)
    (by rw [hpayload]; exact hu)
  rw [hcontent] at harrives
  exact ⟨m, hm, harrives⟩

/-- Two keys of 32 bytes and a signature of 64: entries of any message. -/
theorem publicKeys_lengths (hssl : ssl.Correct) (e : EncryptionService) :
    ∀ entry ∈ [(e.publicKeys ssl).publicDHKey, (e.publicKeys ssl).publicIdentityKey,
      (e.publicKeys ssl).signature], entry.length ≤ 65535 := by
  obtain ⟨hdh, hed, hsignature⟩ : (e.publicKeys ssl).publicDHKey.length = 32 ∧
      (e.publicKeys ssl).publicIdentityKey.length = 32 ∧ (e.publicKeys ssl).signature.length = 64 :=
    ⟨hssl.dh_length _, hssl.ed_length _, hssl.signature_length _ _⟩
  simp [hdh, hed, hsignature]

/-- The six entries of a request fit. The address is as long as it was typed, and the port has a few
    digits. -/
theorem request_arrives (hssl : ssl.Correct) (hshort : c.myUsername.length < 2 ^ 30) {ip : Bytes}
    {port : Int} (hip : ip.length ≤ 65535) (hport : -2 ^ 31 ≤ port ∧ port < 2 ^ 31) :
    ∃ m, c.request ssl ip port = .ok m ∧ (Serializer.serialize m).length < 2 ^ 32 - 4 ∧
      Carries (Serializer.serialize m) (.plain .command [[CommandType.connect.toByte], ip,
        bytes (toString port), (c.encryption.publicKeys ssl).publicDHKey,
        (c.encryption.publicKeys ssl).publicIdentityKey, (c.encryption.publicKeys ssl).signature]
        c.myUsername) := by
  refine new_arrives (by decide) (le_refl 6) ?_ hshort
  rw [List.forall_mem_cons, List.forall_mem_cons, List.forall_mem_cons]
  exact ⟨by decide, hip, (port_length hport).trans (by decide), publicKeys_lengths hssl _⟩

theorem response_arrives (hssl : ssl.Correct) (hshort : c.myUsername.length < 2 ^ 30) :
    ∃ m, c.response ssl = .ok m ∧ (Serializer.serialize m).length < 2 ^ 32 - 4 ∧
      Carries (Serializer.serialize m) (.plain .response [[CommandType.connect.toByte],
        (c.encryption.publicKeys ssl).publicDHKey, (c.encryption.publicKeys ssl).publicIdentityKey,
        (c.encryption.publicKeys ssl).signature] c.myUsername) := by
  refine new_arrives (by decide) (by decide : 4 ≤ 6) ?_ hshort
  rw [List.forall_mem_cons]
  exact ⟨by decide, publicKeys_lengths hssl _⟩

/-- What the one who is asked does, from end to end: the name is new, so it is registered, bound to
    the connection and its keys are cached; then the own keys are sent back. The response is the
    same message whether it is made before or after the introduction, which is why it can be assumed
    to have been built in the context before. -/
theorem recvOnPeer_introduces (hkeys : ssl.Accepts keys) (hfresh : c.users u = none)
    (hm : c.response ssl = .ok m) (ip : Bytes) (port : Int) :
    ConnectCommand.recvOnPeer ssl
        ⟨ip, port, keys.publicDHKey, keys.publicIdentityKey, keys.signature, u⟩ c.fd c
      = .ok () { c.introduced ssl u keys with
          sent := c.sent ++ [(c.fd, Serializer.serialize m)] } := by
  have hresponse : (c.introduced ssl u keys).response ssl = .ok m := by
    unfold PeerContext.response
    rw [introduced_publicKeys]
    exact hm
  have hsend : PeerContext.sendResponse c.fd c.myUsername 4 [[CommandType.connect.toByte],
      (c.introduced ssl u keys).encryption.getDHBytes ssl,
      (c.introduced ssl u keys).encryption.getIdentityBytes ssl,
      (c.introduced ssl u keys).encryption.sign ssl] (c.introduced ssl u keys)
        = .ok () { c.introduced ssl u keys with
            sent := c.sent ++ [(c.fd, Serializer.serialize m)] } := by
    unfold PeerContext.sendResponse
    rw [get_bind_run]
    exact bind_ok (show liftExcept ((c.introduced ssl u keys).response ssl) _ = _ by
      rw [hresponse]; rfl)
  have hmodify : (modify fun c' => { c' with
        users := c.users.insert u keys
        sessions := c'.sessions.bind c.fd u } : PeerContextM PUnit) c
      = .ok ⟨⟩ { c with users := c.users.insert u keys, sessions := c.sessions.bind c.fd u } := rfl
  -- registered, then cached, then the answer: each step runs to its end
  unfold ConnectCommand.recvOnPeer
  rw [get_bind_run]
  dsimp only
  rw [registerUser_fresh hfresh]
  dsimp only
  unfold ConnectCommand.accept
  rw [bind_ok hmodify, bind_ok (cachePublicKey_introduces hkeys c u), get_bind_run]
  exact hsend

/-- A message comes to its handler, and the handler returns: nothing has to be caught. -/
theorem onData_handled {msg : Message} {c' : PeerContext} {handle : Message → PeerContextM Unit}
    (hmsg : Serializer.deserialize raw = .ok msg)
    (hhandler : PeerMessageDispatcher.receivingHandler ssl msg.getType = some handle)
    (hrun : handle msg { c with fd := fd } = .ok () c') :
    PeerContext.onData ssl fd raw c = .ok () c' := by
  have hdispatch : PeerMessageDispatcher.dispatchReceiving ssl msg { c with fd := fd }
      = .ok true c' := by
    unfold PeerMessageDispatcher.dispatchReceiving
    have hreturns : (handle msg >>= fun _ => pure true : PeerContextM Bool) { c with fd := fd }
        = .ok true c' := bind_ok hrun
    rw [hhandler]
    exact catchWith_ok hreturns false
  rw [onData_ok hmsg]
  exact bind_ok hdispatch

/-- **`CONNECT` is heard.** The port has to be one that was made of a number, or the command would
    not come to be. -/
theorem connect_onData {ip : Bytes} {port : Int} (hraw : Carries raw (.plain .command
      [[CommandType.connect.toByte], ip, bytes (toString port), keys.publicDHKey,
        keys.publicIdentityKey, keys.signature] u))
    (hport : -2 ^ 31 ≤ port ∧ port < 2 ^ 31) (hkeys : ssl.Accepts keys) (hfresh : c.users u = none)
    (hm : c.response ssl = .ok m) (fd : Fd) :
    PeerContext.onData ssl fd raw c = .ok ()
      { PeerContext.introduced ssl { c with fd := fd } u keys with
        sent := c.sent ++ [(fd, Serializer.serialize m)] } := by
  obtain ⟨msg, hmsg, hcontent⟩ := hraw
  obtain ⟨htype, hmeta, hpayload⟩ := Message.of_content hcontent
  have hnumber : stoi (msg.getMeta 2) = .ok port :=
    (congrArg stoi (hmeta 2)).trans (stoi_toString hport)
  have hcommand : ConnectCommand.fromMessage msg
      = .ok ⟨ip, port, keys.publicDHKey, keys.publicIdentityKey, keys.signature, u⟩ := by
    unfold ConnectCommand.fromMessage
    rw [hnumber, hpayload, hmeta 1, hmeta 3, hmeta 4, hmeta 5]
    rfl
  have hhandler : PeerMessageDispatcher.receivingHandler ssl msg.getType
      = some (PeerCommandBus.dispatchReceiving ssl) := by
    rw [htype]
    rfl
  refine onData_handled hmsg hhandler ?_
  unfold PeerCommandBus.dispatchReceiving
  rw [find_onPeer, hmeta 0]
  show (liftExcept (ConnectCommand.fromMessage msg) >>= fun cmd => cmd.recvOnPeer ssl fd)
    { c with fd := fd } = _
  rw [hcommand]
  exact recvOnPeer_introduces (c := { c with fd := fd }) hkeys hfresh hm ip port

/-- **The response is heard**, without a reply to it. -/
theorem response_onData (hraw : Carries raw (.plain .response [[CommandType.connect.toByte],
      keys.publicDHKey, keys.publicIdentityKey, keys.signature] u))
    (hkeys : ssl.Accepts keys) (hfresh : c.users u = none) (fd : Fd) :
    PeerContext.onData ssl fd raw c
      = .ok () (PeerContext.introduced ssl { c with fd := fd } u keys) := by
  obtain ⟨msg, hmsg, hcontent⟩ := hraw
  obtain ⟨htype, hmeta, hpayload⟩ := Message.of_content hcontent
  obtain ⟨hdh, hed, hsignature⟩ : msg.getMeta 1 = keys.publicDHKey ∧
      msg.getMeta 2 = keys.publicIdentityKey ∧ msg.getMeta 3 = keys.signature :=
    ⟨hmeta 1, hmeta 2, hmeta 3⟩
  have hhandler : PeerMessageDispatcher.receivingHandler ssl msg.getType
      = some (PeerResponseHandler.handleReceiving ssl) := by
    rw [htype]
    rfl
  refine onData_handled hmsg hhandler ?_
  unfold PeerResponseHandler.handleReceiving
  rw [hmeta 0]
  show PeerResponseHandler.handleConnectResponse ssl msg { c with fd := fd } = _
  unfold PeerResponseHandler.handleConnectResponse
  rw [get_bind_run, hpayload, hdh, hed, hsignature]
  dsimp only
  rw [registerUser_fresh hfresh keys]
  exact cachePublicKey_introduces hkeys { c with fd := fd } u

end

/-! ## One peer -/

namespace PeerNetwork

open MessagingPeer

section

variable {s : MessagingPeer} {fd : Fd} {session : Session}

/-- The socket takes the buffer. The callback is set for the event, though nothing is handed on at a
    write. -/
theorem handle_written (ssl : OpenSSL) (hs : s.node.Serves fd session) (hne : session.out ≠ [])
    (hsmall : session.out.length < 2 ^ 32) (now : UInt64) :
    ∃ node, handle ssl s (.written now fd)
        = (⟨node, { s.context with now := now }⟩, [frame session.out]) ∧
      node.Serves fd { session with out := [] } := by
  let callback := onDataCallback ssl { s.context with now := now } s.node.handedOn.length
  let node := { s.node with callbacks := { s.node.callbacks with onData := some callback } }
  have hnode : node.Serves fd session := ⟨hs.initialized, hs.peers, hs.byFd, hs.watched⟩
  have hevent := (peerEvent_writable hnode.initialized fd (allWritten session.out)).trans
    (onPeerWritable_serves hnode hne)
  refine ⟨node.wrote fd { session with out := [] } false, ?_, hnode.wrote _ _⟩
  unfold handle
  dsimp only
  rw [hs.byFd]
  dsimp only
  rw [if_pos hsmall, flushBuffer_allWritten session.transport hne, sendBuffer_eq hsmall]
  have hhandled : MessagingPeer.handleEvent ssl { s with context := { s.context with now := now } }
      { fd := fd, mask := EPOLLOUT, written := allWritten session.out }
        = ⟨node.wrote fd { session with out := [] } false, { s.context with now := now }⟩ := by
    unfold MessagingPeer.handleEvent
    dsimp only
    rw [finalState_ok hevent]
    show MessagingPeer.mk _ (afterCalls ssl _ (s.node.handedOn.drop s.node.handedOn.length)) = _
    rw [List.drop_length]
    rfl
  exact Prod.ext hhandled rfl

theorem onDataCallback_ok {c c' : PeerContext} {raw : Bytes}
    (hdata : PeerContext.onData ssl fd raw { c with sent := [] } = .ok () c')
    (calls : List (Fd × Bytes)) :
    onDataCallback ssl c calls.length (calls ++ [(fd, raw)]) = { sent := c'.sent } := by
  unfold onDataCallback
  rw [List.drop_left, List.getLast?_singleton]
  dsimp only
  rw [List.dropLast_singleton, show afterCalls ssl c [] = c from rfl, hdata]

/-- A message comes, and is answered on the same connection. This joins the three layers: the packet
    is cut out of the stream, the frame out of the packet, and the callback's answer is that of the
    context, which is then replayed. -/
theorem handle_received {raw : Bytes} {replies : List Bytes} {chunks : List Chunk} {now : UInt64}
    {c : PeerContext} (hraw : raw.length < 2 ^ 32 - 4) (hs : s.node.Serves fd session)
    (hbuffer : session.inBuffer = [])
    (hchunks : chunks.flatMap Chunk.bytes = frame (frame raw))
    (hdata : PeerContext.onData ssl fd raw { s.context with now := now, sent := [] } = .ok () c)
    (hsent : c.sent = replies.map fun data => (fd, data)) :
    ∃ node, handle ssl s (.received now fd chunks)
        = (⟨node, finalState (PeerContext.onData ssl fd raw) { s.context with now := now }⟩, []) ∧
      node.Serves fd { session with out := queued replies session.out } := by
  let callback := onDataCallback ssl { s.context with now := now } s.node.handedOn.length
  let node := { s.node with callbacks := { s.node.callbacks with onData := some callback } }
  have hnode : node.Serves fd session := ⟨hs.initialized, hs.peers, hs.byFd, hs.watched⟩
  have hframe : (frame raw).length < 2 ^ 32 := by
    rw [frame_length]
    omega
  have hpacket := receiveLoop_packet hframe [] (show [] ++ _ = _ from hchunks)
    (frame_ne_nil (frame raw)).symm
  rw [List.append_nil] at hpacket
  have hanswer : callback (node.handedOn ++ [(fd, raw)])
      = { sent := replies.map fun data => (fd, data) } := by
    rw [← hsent]
    exact onDataCallback_ok hdata s.node.handedOn
  obtain ⟨node', hevent, hserves, hhanded⟩ :=
    handleEvent_serves hraw hbuffer hnode rfl hanswer
  refine ⟨node', ?_, hserves⟩
  unfold handle
  dsimp only
  unfold streamReceive
  rw [hpacket]
  have hhandled : MessagingPeer.handleEvent ssl { s with context := { s.context with now := now } }
      { fd := fd, mask := EPOLLIN, received := ⟨.ok, frame raw, 0⟩ }
        = ⟨node', finalState (PeerContext.onData ssl fd raw) { s.context with now := now }⟩ := by
    unfold MessagingPeer.handleEvent
    dsimp only
    rw [finalState_ok hevent, hhanded]
    show MessagingPeer.mk _ (afterCalls ssl _
      ((s.node.handedOn ++ [(fd, raw)]).drop s.node.handedOn.length)) = _
    rw [List.drop_left]
    rfl
  exact Prod.ext hhandled rfl

theorem handle_accepted (ssl : OpenSSL) (hinit : s.node.initialized = true)
    (hfree : s.node.byFd fd = none) (ip : Bytes) :
    ∃ node, handle ssl s (.accepted fd ip) = (⟨node, s.context⟩, []) ∧
      node.Serves fd { fd := fd, ip := ip, transport := .stream (.tcp {}) } := by
  obtain ⟨node, hrun, hserves⟩ := registerPeerConnection_serves
    { fd := fd, ip := ip, transport := .stream (.tcp {}) } hinit hfree
  refine ⟨node, ?_, hserves⟩
  unfold handle MessagingPeer.step
  dsimp only
  rw [finalState_ok hrun]

theorem onNode_ok {α : Type} {x : PeerM α} {node node' : PeerNode} {a : α}
    (h : x node = .ok a node') (c : PeerContext) : onNode x ⟨node, c⟩ = .ok a ⟨node', c⟩ := by
  unfold onNode
  rw [h]

/-- `/connect` with a name and a descriptor that is not 0. Zero is what `connect_to_peer` returns
    for a failure, and it is a descriptor that a process without standard input could get. -/
theorem connectFromPeer_ok {t : MessagingPeer} {cmd : ConnectCommand} {m : Message}
    {node node' : PeerNode} (hname : t.context.myUsername ≠ [])
    (hopen : connectToPeer cmd.ip (some fd) t.node = .ok fd node) (hfd : fd ≠ 0)
    (hm : connectMessage ssl t.context cmd = .ok m)
    (hqueue : sendToPeer fd (Serializer.serialize m) node = .ok () node') :
    connectFromPeer ssl { connected := some fd } cmd t = .ok () ⟨node', t.context⟩ := by
  have hconnected : onNode (connectToPeer cmd.ip (some fd)) t = .ok fd ⟨node, t.context⟩ :=
    onNode_ok hopen t.context
  unfold connectFromPeer
  rw [get_bind_run, if_neg (by simpa using hname), bind_ok hconnected, if_neg hfd, hm]
  exact onNode_ok hqueue t.context

theorem sendMsg_handled {t t' : MessagingPeer} {answer : LineAnswer} {text : Bytes} {msg : Message}
    {handle : Message → MessagingPeerM Unit} (hparse : Parser.parse t.context.now text = .ok msg)
    (hhandler : sendingHandler ssl answer msg.getType = some handle)
    (hrun : handle msg t = .ok () t') : sendMsg ssl answer text t = .ok () t' := by
  have hreturns : (handle msg >>= fun _ => pure true : MessagingPeerM Bool) t = .ok true t' :=
    bind_ok hrun
  have hdispatch : dispatchSending ssl answer msg t = .ok true t' := by
    unfold dispatchSending
    rw [hhandler]
    dsimp only
    unfold MessagingPeer.catchException
    rw [hreturns]
  unfold sendMsg
  rw [get_bind_run, hparse]
  exact bind_ok hdispatch

theorem sendingHandler_command (ssl : OpenSSL) (answer : LineAnswer) {msg : Message}
    {cmd : PeerCommand}
    (h : PeerCommandRegistry.find (Parser.makeStructFromCommand msg).name = some cmd) :
    ∃ handle, sendingHandler ssl answer .command = some handle ∧
      handle msg = MessagingPeer.sendCommand ssl answer msg cmd := by
  refine ⟨_, rfl, ?_⟩
  rw [h]

/-- `/connect` opens a connection and queues the request. The fields of the typed command other than
    the address and the port are there too if the user has typed them, but are not looked at: the
    keys that are sent are the own ones. -/
theorem handle_connect (hinit : s.node.initialized = true) (hfree : s.node.byFd fd = none)
    (hfd : fd ≠ 0) (hname : s.context.myUsername ≠ []) {now : UInt64} {text : Bytes}
    {msg m : Message} {port : Int} (hparse : Parser.parse now text = .ok msg)
    (hconnect : msg.IsCommand .connect) (hport : stoi (msg.getMeta 2) = .ok port)
    (hm : PeerContext.request ssl { s.context with now := now } (msg.getMeta 1) port = .ok m) :
    ∃ node, handle ssl s (.line now text { connected := some fd })
        = (⟨node, { s.context with now := now }⟩, []) ∧
      node.Serves fd {
        fd := fd
        ip := msg.getMeta 1
        transport := .stream (.tcp {})
        out := FramerMessage.formMessage (Serializer.serialize m) [] } := by
  let t : MessagingPeer := { s with context := { s.context with now := now } }
  let cmd : ConnectCommand := ⟨msg.getMeta 1, port, msg.getMeta 3, msg.getMeta 4, msg.getMeta 5,
    msg.getPayload⟩
  obtain ⟨node, hregister, hserves⟩ := registerPeerConnection_serves
    { fd := fd, ip := msg.getMeta 1, transport := .stream (.tcp {}) } hinit hfree
  have hcmd : ConnectCommand.fromMessage msg = .ok cmd := by
    unfold ConnectCommand.fromMessage
    rw [hport]
    rfl
  have hopen : connectToPeer cmd.ip (some fd) t.node = .ok fd node := bind_ok hregister
  have hmessage : connectMessage ssl t.context cmd = .ok m := hm
  have hqueue := sendToPeer_serves hserves (Serializer.serialize m)
  have hqueued := hserves.wrote
    { fd := fd
      ip := msg.getMeta 1
      transport := .stream (.tcp {})
      out := FramerMessage.formMessage (Serializer.serialize m) [] } true
  generalize node.wrote fd _ true = node' at hqueue hqueued
  have hfrom := connectFromPeer_ok (t := t) hname hopen hfd hmessage hqueue
  have hfind : PeerCommandRegistry.find (Parser.makeStructFromCommand msg).name
      = some .connect := by
    rw [find_onPeer, hconnect.code]
    rfl
  have hsent : sendMsg ssl { connected := some fd } text t = .ok () ⟨node', t.context⟩ := by
    obtain ⟨handle, hhandler, hhandle⟩ := sendingHandler_command ssl { connected := some fd } hfind
    refine sendMsg_handled hparse (hconnect.type ▸ hhandler) ?_
    rw [hhandle]
    show (liftFailure (ConnectCommand.fromMessage msg) >>= fun cmd =>
      connectFromPeer ssl { connected := some fd } cmd) t = _
    rw [hcmd]
    exact hfrom
  refine ⟨node', ?_, hqueued⟩
  unfold handle MessagingPeer.step
  dsimp only
  rw [finalState_ok hsent]

end

/-! ## Each side of the exchange -/

/-- A connection `fd` can be opened, and `u` is not known yet, from this connection or another. The
    last field keeps what is sent within a packet. -/
structure Ready (s : MessagingPeer) (fd : Fd) (u : Name) : Prop where
  initialized : s.node.initialized = true
  free : s.node.byFd fd = none
  unknown : s.context.users u = none
  short : s.context.myUsername.length < 2 ^ 30

/-- A buffer with one message is written, and is what the other side cuts apart again. -/
theorem queued_written {raw : Bytes} (hshort : raw.length < 2 ^ 32 - 4) :
    FramerMessage.formMessage raw [] = frame raw ∧ frame raw ≠ [] ∧
      (frame raw).length < 2 ^ 32 := by
  refine ⟨?_, frame_ne_nil raw, ?_⟩
  · rw [formMessage_eq (by omega), List.nil_append]
  · rw [frame_length]
    omega

/-- **The request**: `/connect`, and then it is written. The first two of the six events of the
    exchange, for the one who asks. -/
theorem request_written (hssl : ssl.Correct) {s : MessagingPeer} {fd : Fd} {u : Name}
    (hs : Ready s fd u) (hname : s.context.myUsername ≠ []) (hfd : fd ≠ 0) {typed : UInt64}
    {text : Bytes} {msg : Message} {port : Int} (hparse : Parser.parse typed text = .ok msg)
    (hconnect : msg.IsCommand .connect) (hip : (msg.getMeta 1).length ≤ 65535)
    (hport : stoi (msg.getMeta 2) = .ok port) (asked : UInt64) :
    ∃ s₁ node raw session, handle ssl s (.line typed text { connected := some fd }) = (s₁, []) ∧
      handle ssl s₁ (.written asked fd)
        = (⟨node, { s.context with now := asked }⟩, [frame (frame raw)]) ∧
      node.Serves fd session ∧ session.inBuffer = [] ∧
      raw.length < 2 ^ 32 - 4 ∧
      Carries raw (.plain .command [[CommandType.connect.toByte], msg.getMeta 1,
        bytes (toString port), (s.context.encryption.publicKeys ssl).publicDHKey,
        (s.context.encryption.publicKeys ssl).publicIdentityKey,
        (s.context.encryption.publicKeys ssl).signature] s.context.myUsername) := by
  obtain ⟨m, hm, hshort, hcarries⟩ := request_arrives
    (c := { s.context with now := typed }) hssl hs.short hip (stoi_range hport)
  obtain ⟨node₁, hline, hserves⟩ := handle_connect hs.initialized hs.free hfd hname hparse hconnect
    hport hm
  obtain ⟨hframe, hne, hsmall⟩ := queued_written hshort
  rw [hframe] at hserves
  obtain ⟨node, hwritten, hserves⟩ := handle_written ssl
    (s := ⟨node₁, { s.context with now := typed }⟩) hserves hne hsmall asked
  exact ⟨_, node, _, _, hline, hwritten, hserves, rfl, hshort, hcarries⟩

/-- **The response**: the request comes, and then the response is written. What was known before the
    write is known after it, as a write changes the buffers only. -/
theorem response_written (hssl : ssl.Correct) {s : MessagingPeer} {fd : Fd} {u : Name}
    {keys : User} {session : Session} (hs : s.node.Serves fd session)
    (hbuffer : session.inBuffer = []) (hout : session.out = [])
    (hunknown : s.context.users u = none)
    (hname : s.context.myUsername.length < 2 ^ 30) {raw ip : Bytes} {port : Int}
    (hport : -2 ^ 31 ≤ port ∧ port < 2 ^ 31) (hkeys : ssl.Accepts keys)
    (hraw : raw.length < 2 ^ 32 - 4) (hcarries : Carries raw (.plain .command
      [[CommandType.connect.toByte], ip, bytes (toString port), keys.publicDHKey,
        keys.publicIdentityKey, keys.signature] u))
    {chunks : List Chunk} (hchunks : chunks.flatMap Chunk.bytes = frame (frame raw))
    (heard answered : UInt64) :
    ∃ s₁ s₂ raw', handle ssl s (.received heard fd chunks) = (s₁, []) ∧
      handle ssl s₁ (.written answered fd) = (s₂, [frame (frame raw')]) ∧
      s₂.context.Knows u fd keys ∧ raw'.length < 2 ^ 32 - 4 ∧
      Carries raw' (.plain .response [[CommandType.connect.toByte],
        (s.context.encryption.publicKeys ssl).publicDHKey,
        (s.context.encryption.publicKeys ssl).publicIdentityKey,
        (s.context.encryption.publicKeys ssl).signature] s.context.myUsername) := by
  obtain ⟨m, hm, hshort, hcarries'⟩ := response_arrives
    (c := { s.context with now := heard }) hssl hname
  have hdata := connect_onData (c := { s.context with now := heard, sent := [] }) hcarries hport
    hkeys hunknown hm fd
  obtain ⟨node₁, hreceived, hserves⟩ := handle_received hraw hs hbuffer hchunks hdata
    (show _ = [Serializer.serialize m].map fun data => (fd, data) from rfl)
  have hcontext :=
    finalState_ok (connect_onData (c := { s.context with now := heard }) hcarries hport
    hkeys hunknown hm fd)
  rw [hcontext] at hreceived
  obtain ⟨hframe, hne, hsmall⟩ := queued_written hshort
  have hqueued : queued [Serializer.serialize m] session.out = frame (Serializer.serialize m) := by
    rw [hout]
    exact hframe
  rw [hqueued] at hserves
  obtain ⟨node₂, hwritten, -⟩ := handle_written ssl (s := ⟨node₁, _⟩) hserves hne hsmall answered
  have hknows := introduced_knows hkeys { s.context with now := heard, fd := fd } u
  exact ⟨_, _, _, hreceived, hwritten,
    ⟨hknows.users, hknows.fdToName, hknows.nameToFd, hknows.dhKeys, hknows.identityKeys⟩, hshort,
    hcarries'⟩

/-- **The response comes**, and with it the exchange is over on this side. -/
theorem response_received {s : MessagingPeer} {fd : Fd} {session : Session} {u : Name} {keys : User}
    (hs : s.node.Serves fd session) (hbuffer : session.inBuffer = [])
    (hunknown : s.context.users u = none) {raw : Bytes} (hkeys : ssl.Accepts keys)
    (hraw : raw.length < 2 ^ 32 - 4) (hcarries : Carries raw (.plain .response
      [[CommandType.connect.toByte], keys.publicDHKey, keys.publicIdentityKey, keys.signature] u))
    {chunks : List Chunk} (hchunks : chunks.flatMap Chunk.bytes = frame (frame raw))
    (done : UInt64) :
    ∃ s', handle ssl s (.received done fd chunks) = (s', []) ∧ s'.context.Knows u fd keys := by
  have hdata := response_onData (c := { s.context with now := done, sent := [] }) hcarries hkeys
    hunknown fd
  obtain ⟨node, hreceived, -⟩ := handle_received hraw hs hbuffer hchunks hdata
    (show _ = ([] : List Bytes).map fun data => (fd, data) from rfl)
  have hcontext :=
    finalState_ok (response_onData (c := { s.context with now := done }) hcarries hkeys
    hunknown fd)
  rw [hcontext] at hreceived
  exact ⟨_, hreceived, introduced_knows hkeys { s.context with now := done, fd := fd } u⟩

/-! ## Both -/

/-- A peer `p` connects to `q`: what is particular about one such exchange. Each event has a time of
    its own, and what is read comes in pieces. -/
structure Meeting (P : Type) where
  p : P
  q : P
  fd : Fd
  fd' : Fd
  text : Bytes
  ip : Bytes
  request : List Chunk
  response : List Chunk
  typed : UInt64
  asked : UInt64
  heard : UInt64
  answered : UInt64
  done : UInt64

/-- The six events, in the order in which they can happen. -/
def Meeting.events (x : Meeting P) : List (P × PeerNetworkEvent) :=
  [(x.p, .line x.typed x.text { connected := some x.fd }), (x.q, .accepted x.fd' x.ip),
    (x.p, .written x.asked x.fd), (x.q, .received x.heard x.fd' x.request),
    (x.q, .written x.answered x.fd'), (x.p, .received x.done x.fd x.response)]

end PeerNetwork

open PeerNetwork

/-- **Two peers get to know each other**, if nothing is in the way of it. Both nodes run, and have
    not used the descriptor for anything else. Neither has the name of the other in its directory,
    not even from a connection that is long gone, since a name that is taken is not taken again.
    `p` has logged in, since `/connect` does nothing without a name, and its descriptor is not 0,
    which `send_from_peer` takes for a failure. And of the two there are these six events and
    no others, in this order: `p` types `/connect` with an address and a number, `q` accepts, and
    then what either writes is what the other reads, packet by packet.

    Then each has the name, the keys and the descriptor of the other in the end, whatever all the
    others have done in the meantime. -/
theorem handshake_completes [DecidableEq P] (hssl : ssl.Correct) {s : PeerNetwork P}
    {x : Meeting P} (hpq : x.p ≠ x.q)
    (hp : Ready (s.process x.p) x.fd (s.process x.q).context.myUsername)
    (hq : Ready (s.process x.q) x.fd' (s.process x.p).context.myUsername)
    (hname : (s.process x.p).context.myUsername ≠ []) (hfd : x.fd ≠ 0) {msg : Message} {port : Int}
    (hparse : Parser.parse x.typed x.text = .ok msg) (hconnect : msg.IsCommand .connect)
    (hip : (msg.getMeta 1).length ≤ 65535) (hport : stoi (msg.getMeta 2) = .ok port)
    (hrequest : (s.run (handling ssl) (x.events.take 3)).wire.getLast?
      = some (x.request.flatMap Chunk.bytes))
    (hresponse : (s.run (handling ssl) (x.events.take 5)).wire.getLast?
      = some (x.response.flatMap Chunk.bytes))
    {events : List (P × PeerNetworkEvent)}
    (hevents : (events.filter fun a => a.1 = x.p ∨ a.1 = x.q) = x.events) :
    ((s.run (handling ssl) events).process x.p).context.Knows (s.process x.q).context.myUsername
        x.fd ((s.process x.q).context.encryption.publicKeys ssl) ∧
      ((s.run (handling ssl) events).process x.q).context.Knows (s.process x.p).context.myUsername
        x.fd' ((s.process x.p).context.encryption.publicKeys ssl) := by
  have hnothing : ∀ {t : PeerNetwork P} {e : PeerNetworkEvent}, reads e = none →
      ∀ packet ∈ (handling ssl).reads e, packet ∈ t.wire := by
    intro t e he packet hpacket
    rw [show (handling ssl).reads e = none from he] at hpacket
    cases hpacket
  have hwritten : ∀ {t : PeerNetwork P} {e : PeerNetworkEvent} {packet : Bytes},
      t.wire.getLast? = some packet → reads e = some packet →
      ∀ packet ∈ (handling ssl).reads e, packet ∈ t.wire := by
    rintro t e packet hlast he packet' hpacket
    rw [show (handling ssl).reads e = some packet from he] at hpacket
    cases hpacket
    exact List.mem_of_getLast? hlast
  obtain ⟨p₁, node, raw, session, hline, hasked, hserves, hbuffer, hraw, hcarries⟩ :=
    request_written hssl hp hname hfd hparse hconnect hip hport x.asked
  obtain ⟨q₁, haccepted, hserves'⟩ := handle_accepted ssl hq.initialized hq.free x.ip
  -- the request is on its way
  obtain ⟨hp₁, hq₁, -⟩ := Wired.step_handles (s := s) (h := handling ssl)
    (e := .line x.typed x.text { connected := some x.fd }) hpq.symm rfl rfl (hnothing rfl) hline
  obtain ⟨hq₂, hp₂, -⟩ := Wired.step_handles (h := handling ssl)
    (e := .accepted x.fd' x.ip) hpq hq₁ hp₁ (hnothing rfl) haccepted
  obtain ⟨hp₃, hq₃, hwire₃⟩ := Wired.step_handles (h := handling ssl)
    (e := .written x.asked x.fd) hpq.symm hp₂ hq₂ (hnothing rfl) hasked
  have hlast := (congrArg List.getLast? hwire₃).symm.trans hrequest
  rw [List.getLast?_concat] at hlast
  -- the response is on its way
  obtain ⟨q₂, q₃, raw', hheard, hanswered, hknows', hraw', hcarries'⟩ := response_written
    (s := ⟨q₁, _⟩) hssl hserves' rfl rfl hq.unknown hq.short (stoi_range hport)
    (publicKeys_accepted hssl _) hraw hcarries (Option.some.inj hlast).symm x.heard x.answered
  obtain ⟨hq₄, hp₄, -⟩ := Wired.step_handles (h := handling ssl)
    (e := .received x.heard x.fd' x.request) hpq hq₃ hp₃ (hwritten hrequest rfl) hheard
  obtain ⟨hq₅, hp₅, hwire₅⟩ := Wired.step_handles (h := handling ssl)
    (e := .written x.answered x.fd') hpq hq₄ hp₄ (hnothing rfl) hanswered
  have hlast' := (congrArg List.getLast? hwire₅).symm.trans hresponse
  rw [List.getLast?_concat] at hlast'
  -- the response has come
  obtain ⟨p₃, hdone, hknows⟩ := response_received (s := ⟨node, _⟩) hserves hbuffer hp.unknown
    (publicKeys_accepted hssl _) hraw' hcarries' (Option.some.inj hlast').symm x.done
  obtain ⟨hp₆, hq₆, -⟩ := Wired.step_handles (h := handling ssl)
    (e := .received x.done x.fd x.response) hpq.symm hp₅ hq₅ (hwritten hresponse rfl) hdone
  have hreadable : s.Readable (handling ssl) x.events :=
    ⟨hnothing rfl, hnothing rfl, hnothing rfl, hwritten hrequest rfl, hnothing rfl,
      hwritten hresponse rfl, trivial⟩
  have hrun := Wired.run_filter (A := fun a => a = x.p ∨ a = x.q) (s := s) (t := s)
    (fun _ _ => rfl) (List.Subset.refl _) (hevents.symm ▸ hreadable)
  have hp' : (s.run (handling ssl) x.events).process x.p = p₃ := hp₆
  have hq' : (s.run (handling ssl) x.events).process x.q = q₃ := hq₆
  rw [hrun x.p (by simp), hrun x.q (by simp), hevents, hp', hq']
  exact ⟨hknows, hknows'⟩

/-- Alice and Bob have logged in. -/
def bothLoggedIn : PeerNetwork Bool :=
  (PeerNetwork.start twoServices).run (handling clearSSL)
    [(true, .line 0 (bytes "/login alice") {}), (false, .line 0 (bytes "/login bob") {})]

/-- The last packet on the wire, in one piece. -/
def lastPiece (s : PeerNetwork Bool) (h : s.wire.getLast?.getD [] ≠ [] ∧
    (s.wire.getLast?.getD []).length ≤ 4096) : Chunk := ⟨s.wire.getLast?.getD [], h.1, h.2⟩

def aliceAsks : List (Bool × PeerNetworkEvent) :=
  [(true, .line 1 (bytes "/connect 10.0.0.2 9000") { connected := some 5 }),
    (false, .accepted 6 (bytes "10.0.0.1")), (true, .written 2 5)]

def alicesRequest : Chunk :=
  lastPiece (bothLoggedIn.run (handling clearSSL) aliceAsks) (by decide +kernel)

def bobAnswers : List (Bool × PeerNetworkEvent) :=
  aliceAsks ++ [(false, .received 3 6 [alicesRequest]), (false, .written 4 6)]

def bobsGreeting : Chunk :=
  lastPiece (bothLoggedIn.run (handling clearSSL) bobAnswers) (by decide +kernel)

def aliceMeetsBob : Meeting Bool where
  p := true
  q := false
  fd := 5
  fd' := 6
  text := bytes "/connect 10.0.0.2 9000"
  ip := bytes "10.0.0.1"
  request := [alicesRequest]
  response := [bobsGreeting]
  typed := 1
  asked := 2
  heard := 3
  answered := 4
  done := 5

theorem alice_meets_bob :
    ((bothLoggedIn.run (handling clearSSL) aliceMeetsBob.events).process
      aliceMeetsBob.p).context.Knows
        (bothLoggedIn.process aliceMeetsBob.q).context.myUsername aliceMeetsBob.fd
        ((bothLoggedIn.process aliceMeetsBob.q).context.encryption.publicKeys clearSSL) ∧
      ((bothLoggedIn.run (handling clearSSL) aliceMeetsBob.events).process
          aliceMeetsBob.q).context.Knows
        (bothLoggedIn.process aliceMeetsBob.p).context.myUsername aliceMeetsBob.fd'
        ((bothLoggedIn.process aliceMeetsBob.p).context.encryption.publicKeys clearSSL) := by
  have halice : Ready (bothLoggedIn.process aliceMeetsBob.p) aliceMeetsBob.fd
      (bothLoggedIn.process aliceMeetsBob.q).context.myUsername :=
    ⟨by decide +kernel, Option.isNone_iff_eq_none.mp (by decide +kernel), by decide +kernel,
      by decide +kernel⟩
  have hbob : Ready (bothLoggedIn.process aliceMeetsBob.q) aliceMeetsBob.fd'
      (bothLoggedIn.process aliceMeetsBob.p).context.myUsername :=
    ⟨by decide +kernel, Option.isNone_iff_eq_none.mp (by decide +kernel), by decide +kernel,
      by decide +kernel⟩
  obtain ⟨msg, hparse, hconnect, hip, hport⟩ : ∃ msg,
      Parser.parse aliceMeetsBob.typed aliceMeetsBob.text = .ok msg ∧ msg.IsCommand .connect ∧
      (msg.getMeta 1).length ≤ 65535 ∧ stoi (msg.getMeta 2) = .ok 9000 :=
    ⟨_, rfl, ⟨rfl, rfl⟩, by decide, by decide +kernel⟩
  have hname : (bothLoggedIn.process aliceMeetsBob.p).context.myUsername ≠ [] := by decide +kernel
  exact handshake_completes clearSSL_correct (by decide) halice hbob hname (by decide) hparse
    hconnect hip hport (by decide +kernel) (by decide +kernel) rfl

end Messenger
