import Messenger.Model.Transport

/-!
# `transport/transport.cpp`: what the datagram transport receives

A datagram is read with one call of `recvfrom`, which takes the first 4096 bytes and drops the
rest. Only a datagram of the own peer is looked into, and only a whole frame is handed over.

The answer `0` of `recvfrom`, which is that to an empty datagram, is taken for the end of the
connection, whoever sent it.
-/

set_option autoImplicit false

namespace Messenger

open Messenger.Lib

/-- `sin_addr` and `sin_port` of a `sockaddr_in`. -/
structure SockAddr where
  addr : UInt32
  port : UInt16
  deriving DecidableEq, Repr

def EINVAL : Int := 22

def EBADMSG : Int := 74

/-- What `recvfrom` comes to. A datagram is as long as its sender has made it. -/
inductive RecvfromResult
  | datagram (sender : SockAddr) (bytes : Bytes)
  -- `-1` with `EAGAIN` or `EWOULDBLOCK`.
  | wouldBlock
  -- `-1` with any other `errno`.
  | failed (errno : Int)

/-- `UDPTransport::receive`, for a transport with the peer `addr`. The count is looked at before the
    sender, so an empty datagram ends the connection whoever sent it. -/
def udpReceive (addr : SockAddr) : RecvfromResult → ReceiveResult
  | .datagram sender bytes =>
    let temp := bytes.take 4096
    if temp.length > 0 then
      if sender.addr ≠ addr.addr ∨ sender.port ≠ addr.port then ⟨.error, [], EINVAL⟩
      else if temp.length < 4 then ⟨.error, [], EBADMSG⟩
      else
        let len := (declaredLength temp).toNat
        if temp.length ≠ 4 + len then ⟨.error, [], EBADMSG⟩
        else ⟨.ok, (temp.drop 4).take len, 0⟩
    else ⟨.closed, [], 0⟩
  | .wouldBlock => ⟨.wouldBlock, [], 0⟩
  | .failed errno => ⟨.error, [], errno⟩

end Messenger
