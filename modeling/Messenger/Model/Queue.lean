import Messenger.Lib.Fifo
import Messenger.Lib.Table
import Messenger.Model.Base

/-!
# Outgoing messages

`application/messaging/message_queue.cpp`: a ring buffer for each recipient. A slot is
given up when `head` and `tail` meet, so a ring of `Size` slots holds at most `Size - 1`
items, and a `push` on a full ring returns `false`. `MessageQueue::push` ignores that
answer.

`AtomicQueue` is the ring as it is stored, with the indices in `std::atomic<int>`, and
`LockFreeQueue` the same ring with indices that are slots. They answer alike as long as an
`int` can hold every index of the buffer, which those of `MessageQueue` can.
-/

set_option autoImplicit false

namespace Messenger

open Messenger.Lib

/-- The two indices stay below the size: each is only ever assigned a remainder. With `Fin` that is
    a property of the type, and every access to the buffer is one to a slot there is. -/
structure LockFreeQueue (T : Type) (Size : Nat) where
  buffer : Fin Size → T
  head : Fin Size
  tail : Fin Size

namespace LockFreeQueue

variable {T : Type} {Size : Nat}

/-- A fresh queue of default-constructed items. -/
def new [Inhabited T] [NeZero Size] : LockFreeQueue T Size where
  buffer _ := default
  head := 0
  tail := 0

/-- `(i + 1) % Size`. -/
def next (i : Fin Size) : Fin Size := ⟨(i.val + 1) % Size, Nat.mod_lt _ i.pos⟩

/-- The item goes where `tail` points, unless moving `tail` on would make the ring look empty. -/
def push (q : LockFreeQueue T Size) (item : T) : Bool × LockFreeQueue T Size :=
  let tNext := next q.tail
  if tNext = q.head then (false, q)
  else (true, { q with buffer := Function.update q.buffer q.tail item, tail := tNext })

/-- The item stays in its slot, moved from; nothing reads it there again. -/
def pop (q : LockFreeQueue T Size) : Option T × LockFreeQueue T Size :=
  if q.head = q.tail then (none, q)
  else (some (q.buffer q.head), { q with head := next q.head })

/-- How many slots there are from `head` to `tail`. -/
def count (q : LockFreeQueue T Size) : Nat := (q.tail.val + Size - q.head.val) % Size

/-- The slot `i` places after `head`. -/
def slot (q : LockFreeQueue T Size) (i : Nat) : Fin Size :=
  ⟨(q.head.val + i) % Size, Nat.mod_lt _ q.head.pos⟩

/-- What the queue holds, oldest first. This is the queue's abstraction: `push` and `pop` are
    described by what they do to this list. -/
def items (q : LockFreeQueue T Size) : List T :=
  (List.range q.count).map fun i => q.buffer (q.slot i)

end LockFreeQueue

/-! ## The indices as they are stored -/

/-- `size_t t = tail.load()`: an `int` that becomes a `size_t` keeps its sign bits. A negative one
    would be a huge index. -/
def loadIndex (index : Int32) : UInt64 := index.toInt64.toUInt64

/-- `tail.store(t_next)`: of a `size_t` an `int` keeps the low half. For an index beyond `INT_MAX`
    what is loaded later is not what was stored. -/
def storeIndex (index : UInt64) : Int32 := index.toUInt32.toInt32

/-- `LockFreeQueue<T, Size>`, with its indices as the memory has them. -/
structure AtomicQueue (T : Type) (Size : UInt64) where
  buffer : Fin Size.toNat → T
  head : Int32 := 0
  tail : Int32 := 0

namespace AtomicQueue

variable {T : Type} {Size : UInt64}

def new [Inhabited T] : AtomicQueue T Size where
  buffer _ := default

/-- The index that is loaded is checked against the size by nobody; it is in the buffer because only
    remainders are stored. -/
def push (q : AtomicQueue T Size) (item : T) : Except Failure (Bool × AtomicQueue T Size) :=
  let t := loadIndex q.tail
  let tNext := (t + 1) % Size
  if tNext = loadIndex q.head then .ok (false, q)
  else if h : t.toNat < Size.toNat then
    .ok (true, { q with
      buffer := Function.update q.buffer ⟨t.toNat, h⟩ item, tail := storeIndex tNext })
  else .error .outOfBounds

def pop (q : AtomicQueue T Size) : Except Failure (Option T × AtomicQueue T Size) :=
  let h := loadIndex q.head
  if h = loadIndex q.tail then .ok (none, q)
  else if hslot : h.toNat < Size.toNat then
    .ok (some (q.buffer ⟨h.toNat, hslot⟩), { q with head := storeIndex ((h + 1) % Size) })
  else .error .outOfBounds

/-- A call of either. -/
def call (q : AtomicQueue T Size) :
    QueueCall T → Except Failure (QueueAnswer T × AtomicQueue T Size)
  | .push item => (q.push item).map fun out => (.pushed out.1, out.2)
  | .pop => q.pop.map fun out => (.popped out.1, out.2)

end AtomicQueue

structure OutgoingMessage where
  bytes : Bytes
  deriving DecidableEq, Repr, Inhabited

/-- `lock_free_queues`. A ring is made when something is queued for a recipient, and stays from then
    on. -/
abbrev MessageQueue := Table Bytes (LockFreeQueue OutgoingMessage 4096)

namespace MessageQueue

/-- What the ring answers is dropped, and with it a text that found no room. -/
def push (mq : MessageQueue) (recipientUsername bytes : Bytes) : MessageQueue :=
  let queue := (mq recipientUsername).getD .new
  mq.insert recipientUsername (queue.push ⟨bytes⟩).2

/-- The oldest text for a recipient. It is out of the ring whatever becomes of it afterwards. -/
def findPending (mq : MessageQueue) (recipientUsername : Bytes) :
    Option OutgoingMessage × MessageQueue :=
  match mq recipientUsername with
  | none => (none, mq)
  | some queue =>
    let (msg, queue) := queue.pop
    (msg, mq.insert recipientUsername queue)

/-- The texts that are queued for a recipient, oldest first. -/
def pending (mq : MessageQueue) (recipientUsername : Bytes) : List Bytes :=
  match mq recipientUsername with
  | none => []
  | some queue => queue.items.map OutgoingMessage.bytes

end MessageQueue

end Messenger
