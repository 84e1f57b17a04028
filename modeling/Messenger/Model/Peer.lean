import Messenger.Lib.Action
import Messenger.Model.Services
import Messenger.Model.Transport

/-!
# A peer node: `transport/{peer,handling}.cpp`

A node keeps its sessions in a registry, by descriptor and by address, and its handler has weak
pointers to the same sessions. The pointers lead to what `by_fd` owns, so that a pointer can be
locked exactly if `by_fd` has the session.

An event is what `epoll_wait` reports, with what the calls answer that its handling makes:
`receive` of the transport may have any result (what the transport keeps of it for itself is
cleared at the next call and not here), and `send` takes what the `WriteAnswer` says.

The callbacks are the application's. `on_data_callback` has a state of its own, so what it does
is a function of all its calls so far: it passes messages to `send_to_peer`, and may fail then.
The other two only take note of the call.
-/

set_option autoImplicit false

namespace Messenger

open Messenger.Lib

/-! ## Bits of an event mask -/

def EPOLLIN : UInt32 := 0x001

def EPOLLOUT : UInt32 := 0x004

def EPOLLERR : UInt32 := 0x008

def EPOLLHUP : UInt32 := 0x010

def EPOLLRDHUP : UInt32 := 0x2000

/-- How a call ends when it does not return. The first two are kept apart from the failures of the
    application because the question here is whether the node's own tables can bring them about. -/
inductive PeerFailure
  -- A session is used that is not there: a null pointer is dereferenced, or an iterator to an
  -- entry that has been erased.
  | sessionGone
  -- A `std::function` without a function is called.
  | badFunctionCall
  -- Any other failure.
  | failed (e : Failure)
  deriving DecidableEq, Repr

namespace PeerNode

/-- `struct PeerSession`, as the node uses it. -/
structure Session where
  fd : Fd
  ip : Bytes
  transport : ITransport
  -- `in`
  inBuffer : Bytes := []
  out : Bytes := []

/-- What a call of `on_data_callback` does: what it passes to `send_to_peer`, in order, and how it
    fails if it does. -/
structure DataAnswer where
  sent : List (Fd × Bytes) := []
  failure : Option Failure := none

/-- Of each callback, whether it is set. -/
structure Callbacks where
  -- With all its calls so far, the present one last.
  onData : Option (List (Fd × Bytes) → DataAnswer) := none
  onPeerConnected : Bool := false
  onPeerDisconnected : Bool := false

end PeerNode

/-- A node: the registry with its two tables, the weak pointers of its handler, and what its event
    loop watches. The lists at the end record the calls of the callbacks. -/
structure PeerNode where
  byFd : Table Fd PeerNode.Session := .empty
  byIp : Table Bytes Fd := .empty
  -- `handler_->peers_`
  peers : Table Fd Unit := .empty
  -- The descriptors that `event_loop_` watches, and whether for `EPOLLOUT` also.
  watched : Table Fd Bool := .empty
  callbacks : PeerNode.Callbacks := {}
  running : Bool := false
  -- `handler_->peer_node_` is not null.
  initialized : Bool := false
  -- The calls of the callbacks so far.
  handedOn : List (Fd × Bytes) := []
  connected : List Fd := []
  disconnected : List Fd := []

abbrev PeerM := EStateM PeerFailure PeerNode

namespace PeerNode

/-- What the pointers for `fd` lead to is `session` now. -/
def setSession (s : PeerNode) (fd : Fd) (session : Session) : PeerNode :=
  { s with byFd := s.byFd.insert fd session }

/-- `*node.registry_.by_fd[fd]`. Where there is no entry, `operator[]` makes one with a null
    pointer, which is dereferenced. -/
def sessionAt (fd : Fd) : PeerM Session := do
  let s ← get
  match s.byFd fd with
  | some session => return session
  | none => throw .sessionGone

/-! ## The event loop -/

/-- `EPOLL_CTL_ADD` of a descriptor that is there already changes nothing. -/
def addFd (fd : Fd) : PeerM Unit := do
  let s ← get
  match s.watched fd with
  | none => set { s with watched := s.watched.insert fd false }
  | some _ => return

def removeFd (fd : Fd) : PeerM Unit :=
  modify fun s => { s with watched := s.watched.erase fd }

/-- `EPOLL_CTL_MOD` of a descriptor that is not there changes nothing. -/
def setWriteInterest (fd : Fd) (interest : Bool) : PeerM Unit := do
  let s ← get
  match s.watched fd with
  | none => return
  | some _ => set { s with watched := s.watched.insert fd interest }

def enableWrite (fd : Fd) : PeerM Unit := setWriteInterest fd true

def disableWrite (fd : Fd) : PeerM Unit := setWriteInterest fd false

/-! ## Sessions come and go -/

/-- `handler_->add_peer(session)`. -/
def addPeer (session : Session) : PeerM Unit :=
  modify fun s => { s with peers := s.peers.insert session.fd () }

/-- `handler_->remove_peer(fd)`. -/
def removePeer (fd : Fd) : PeerM Unit :=
  modify fun s => { s with peers := s.peers.erase fd }

/-- Both kinds of sockets are registered alike. A second session from the same address takes over
    the entry in `by_ip`, and the first is then found by its descriptor only. -/
def registerPeerConnection (session : Session) : PeerM Int := do
  let s ← get
  match s.byFd session.fd with
  | some _ => return 1
  | none =>
    addPeer session
    addFd session.fd
    if s.callbacks.onPeerConnected then
      modify fun s => { s with connected := s.connected ++ [session.fd] }
    modify fun s => { s with
      byIp := s.byIp.insert session.ip session.fd
      byFd := s.byFd.insert session.fd session }
    return 0

/-- The session is found by its descriptor and its address looked up in `by_ip`. If that entry is
    gone, because another session from the same address has taken it along, nothing is removed at
    all. -/
def disconnectFromPeer (fd : Fd) : PeerM Int := do
  let session ← sessionAt fd
  let peerIp := session.ip
  let s ← get
  match s.byIp peerIp with
  | none => return 1
  | some _ =>
    removeFd fd
    removePeer fd
    modify fun s => { s with byFd := s.byFd.erase fd }
    modify fun s => { s with byIp := s.byIp.erase peerIp }
    if s.callbacks.onPeerDisconnected then
      modify fun s => { s with disconnected := s.disconnected ++ [fd] }
    return 0

/-- `peerFds` are the keys of `by_fd`, in the order in which the map is iterated. A session that
    could not be removed stays in the registry. -/
def stop (peerFds : List Fd) : PeerM Unit := do
  let s ← get
  if !s.running then return
  else
    peerFds.forM fun fd => do
      let _result ← disconnectFromPeer fd
      return ()
    modify fun s => { s with running := false, peers := .empty }

/-! ## Sending -/

/-- A message for a descriptor without a session is dropped. -/
def sendToPeer (fd : Fd) (data : Bytes) : PeerM Unit := do
  let s ← get
  match s.byFd fd with
  | none => return
  | some session =>
    set (s.setSession fd { session with out := FramerMessage.formMessage data session.out })
    enableWrite fd

/-- As for the server, the interest is given up when `flush` returns `true`. -/
def onPeerWritable (fd : Fd) (a : WriteAnswer) : PeerM Unit := do
  let session ← sessionAt fd
  let f := session.transport.flushBuffer session.out a
  modify fun s => s.setSession fd { session with out := f.buffer }
  if f.done then disableWrite fd

end PeerNode

/-! ## Events -/

structure PeerEvent where
  fd : Fd
  mask : UInt32
  -- Of `transport.receive()`.
  received : ReceiveResult := ⟨.wouldBlock, [], 0⟩
  -- Of `transport.send(session.out)`.
  written : WriteAnswer := { written := ⟨none, false⟩ }

namespace PeerEventHandler

open PeerNode

/-- `if (on_data_callback) on_data_callback(fd, msg)`. What it has sent before it fails has been
    sent. -/
def onData (fd : Fd) (msg : Bytes) : PeerM Unit := do
  let s ← get
  match s.callbacks.onData with
  | none => return
  | some callback =>
    let calls := s.handedOn ++ [(fd, msg)]
    set { s with handedOn := calls }
    (callback calls).sent.forM fun sent => sendToPeer sent.1 sent.2
    match (callback calls).failure with
    | none => return
    | some e => throw (.failed e)

/-- `while (connection.lock()->has_complete_message()) { … }`, for a number of turns. A message
    takes four bytes or more off the buffer, so there are fewer than the buffer has bytes. The
    session is looked up anew at each turn, since the callback may have removed it. -/
def handleMessages (fd : Fd) : Nat → PeerM Unit
  | 0 => return
  | turns + 1 => do
    let session ← sessionAt fd
    if FramerMessage.hasMessageInBuffer session.inBuffer then
      match FramerMessage.extractMessage session.inBuffer with
      | .error e => throw (.failed e)
      | .ok (msg, rest) =>
        modify fun s => s.setSession fd { session with inBuffer := rest }
        onData fd msg
        handleMessages fd turns
    else return

/-- `session.try_receive()`: what has come is appended to the buffer, whatever the status is. -/
def tryReceive (session : Session) (result : ReceiveResult) : Bool × Session :=
  (result.status = .ok ∨ result.status = .wouldBlock,
    { session with inBuffer := session.inBuffer ++ result.data })

/-- `remove_peer(fd); disconnect_from_peer(*peer_node_, it->second.lock()->fd.get_fd());`, where
    `it` is the iterator to the entry of `fd`: what it points to is looked for when it is used. The
    entry has been erased by then, so this always fails. -/
def dropPeer (fd : Fd) : PeerM Unit := do
  removePeer fd
  let s ← get
  match s.peers fd with
  | none => throw .sessionGone
  | some () =>
    let session ← sessionAt fd
    let _result ← disconnectFromPeer session.fd

/-- The part for `EPOLLIN`. It is `false` where `handle_event` returns from within. -/
def receive (e : PeerEvent) : PeerM Bool := do
  let s ← get
  match s.peers e.fd with
  | none => return false
  | some () =>
    match s.byFd e.fd with
    | none =>
      removePeer e.fd
      if s.callbacks.onPeerDisconnected then
        modify fun s => { s with disconnected := s.disconnected ++ [e.fd] }
        return false
      else throw .badFunctionCall
    | some session =>
      let (received, session) := tryReceive session e.received
      set (s.setSession e.fd session)
      if received then handleMessages e.fd (session.inBuffer.length + 1)
      else dropPeer e.fd
      return true

/-- A hang-up is handled before anything else, and alone. The registry is asked for the session in
    any case, so a hang-up of one that is gone fails. -/
def handleEvent (e : PeerEvent) : PeerM Unit := do
  let s ← get
  if !s.initialized then return
  else if e.mask &&& (EPOLLERR ||| EPOLLHUP ||| EPOLLRDHUP) ≠ 0 then
    removePeer e.fd
    let _result ← disconnectFromPeer e.fd
  else
    let goesOn ← if e.mask &&& EPOLLIN ≠ 0 then receive e else pure true
    if goesOn ∧ e.mask &&& EPOLLOUT ≠ 0 then onPeerWritable e.fd e.written

end PeerEventHandler

/-! ## Runs -/

/-- The calls that change the registry. -/
inductive PeerCall
  | registerPeerConnection (session : PeerNode.Session)
  | disconnectFromPeer (fd : Fd)

def PeerCall.perform : PeerCall → PeerM Int
  | .registerPeerConnection session => PeerNode.registerPeerConnection session
  | .disconnectFromPeer fd => PeerNode.disconnectFromPeer fd

/-- The node after a call. -/
def PeerNode.step (s : PeerNode) (call : PeerCall) : PeerNode := finalState call.perform s

def PeerNode.run (s : PeerNode) (calls : List PeerCall) : PeerNode := calls.foldl step s

end Messenger
