import Messenger.Lib.Wired
import Messenger.Model.MessagingPeer

/-!
# Any number of peers

Peers type lines, connect, accept, write to their sockets and read from them, in any order. What
they write is on the wire from then on, and whatever is read is on the wire; more is not asked of
the network. That a connection leads to the peer it seems to lead to is not either.

Two things are asked of the sockets, because the transport relies on them (`Proof/Transport` and
`Proof/Flush` say what it does otherwise), and they are a part of what an event is here:

* `written` is a write that takes the whole buffer, of less than 4 GB;
* `received` is a call of `receive` in which `recv` returns one packet, whole, cut in any way.

So every result about these networks is one about peers whose sockets do so. A write that takes a
part, or a read that sees two packets or a half, is not an event of them.
-/

set_option autoImplicit false

namespace Messenger

open Messenger.Lib

/-- What happens to one of the peers: the events of a `MessagingPeer`, but for those in which a
    socket does something that the transport does not cope with. -/
inductive PeerNetworkEvent
  -- The user types a line.
  | line (now : UInt64) (text : Bytes) (answer : LineAnswer)
  | accepted (fd : Fd) (ip : Bytes)
  -- A socket takes all that is in the buffer.
  | written (now : UInt64) (fd : Fd)
  -- A packet comes, all of it and nothing else, in the pieces that `recv` returns.
  | received (now : UInt64) (fd : Fd) (chunks : List Chunk)
  | hungUp (now : UInt64) (fd : Fd)

namespace PeerNetwork

/-- `send` takes all of the packet. -/
def allWritten (out : Bytes) : WriteAnswer := { written := ⟨some (sendBuffer out).length, false⟩ }

variable (ssl : OpenSSL)

/-- The peer after an event, and what it has written. A buffer of 4 GB, the length of which would
    not fit the packet, is not written. -/
def handle (s : MessagingPeer) : PeerNetworkEvent → MessagingPeer × List Bytes
  | .line now text answer => (s.step ssl (.line now text answer), [])
  | .accepted fd ip =>
    (s.step ssl (.accepted { fd := fd, ip := ip, transport := .stream (.tcp {}) }), [])
  | .written now fd =>
    match s.node.byFd fd with
    | none => (s, [])
    | some session =>
      if session.out.length < 2 ^ 32 then
        let a := allWritten session.out
        (s.step ssl (.event now { fd := fd, mask := EPOLLOUT, written := a }),
          [(session.transport.flushBuffer session.out a).emitted])
      else (s, [])
  | .received now fd chunks =>
    let result := (streamReceive [] (chunks.map .data)).result
    (s.step ssl (.event now { fd := fd, mask := EPOLLIN, received := result }), [])
  | .hungUp now fd => (s.step ssl (.event now { fd := fd, mask := EPOLLHUP }), [])

/-- The packet that a socket has read. -/
def reads : PeerNetworkEvent → Option Bytes
  | .received _ _ chunks => some (chunks.flatMap Chunk.bytes)
  | _ => none

/-- The peers as processes that share a wire, where a packet is the bytes of one `send`. -/
def handling : Handling MessagingPeer PeerNetworkEvent Bytes where
  reads := reads
  handle := handle ssl

end PeerNetwork

abbrev PeerNetwork (P : Type) := Wired P MessagingPeer Bytes

/-- The peers have just started, each with keys of its own, and know nobody. -/
def PeerNetwork.start {P : Type} (own : P → EncryptionService) : PeerNetwork P where
  process p := .new (own p)

end Messenger
