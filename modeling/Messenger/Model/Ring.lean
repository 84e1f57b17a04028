import Messenger.Model.Queue

/-!
# The ring with a thread on each side

`LockFreeQueue` is made for one thread that pushes and one that pops, at the same time. Each call
is four accesses to what the threads share, and between any two of them the other thread may
run. `PushAt` and `PopAt` say where in its call a thread is, with the values of its variables.

Each index is stored by one thread and loaded by both. A thread finds in its own index what it has
stored last. In the other's index it finds a value that may have been overwritten since: a load
with `memory_order_acquire` is bound to no store in particular, it only never goes back behind
one that the thread has seen before. So the state has every value that an index has had, and how
far the other thread has seen. What a thread did before a store with `memory_order_release` is
there for the one that has loaded what was stored, so the slots have no history.
-/

set_option autoImplicit false

namespace Messenger

open Messenger.Lib

/-- Where the thread that pushes is. The item and the index travel with it, as the arguments and
    variables of `push` do. -/
inductive PushAt (T : Type)
  -- In no call.
  | idle
  -- `t` has been loaded from `tail`.
  | loaded (item : T) (t : UInt64)
  -- There is room; `buffer[t] = std::move(item)` is next.
  | writing (item : T) (t : UInt64)
  -- `tail.store(t_next)` is next.
  | storing (item : T) (t : UInt64)
  deriving DecidableEq, Repr

/-- Where the thread that pops is. -/
inductive PopAt (T : Type)
  -- In no call.
  | idle
  -- `h` has been loaded from `head`.
  | loaded (h : UInt64)
  -- There is an item; `T item = std::move(buffer[h])` is next.
  | reading (h : UInt64)
  -- `head.store((h + 1) % Size)` is next.
  | storing (item : T) (h : UInt64)
  deriving DecidableEq, Repr

/-- The ring and its two threads. `queue` is what the memory holds; the two lists of values are
    there because a load may still get an older one. -/
structure RingThreads (T : Type) (Size : UInt64) where
  queue : AtomicQueue T Size
  -- The values of `head`, from the first to the present one.
  heads : List Int32 := [0]
  -- The values of `tail`.
  tails : List Int32 := [0]
  -- The place in `heads` of the value that `push` has been given last.
  seenHead : Nat := 0
  -- The place in `tails` of the value that `pop` has been given last.
  seenTail : Nat := 0
  pusher : PushAt T := .idle
  popper : PopAt T := .idle
  -- The calls that have returned, with what they returned.
  history : List (QueueCall T × QueueAnswer T) := []

/-- One access. Where it loads the index of the other thread, `behind` says how many stores ago the
    value was stored that it gets. Leaving it open is what `memory_order_acquire` leaves open: a
    thread may be late in seeing what the other has done, by any amount. -/
inductive RingStep (T : Type)
  -- A call of `push` begins, if the thread is in none: `tail.load()`.
  | push (item : T)
  -- The call of `push` goes on.
  | pusher (behind : Nat)
  -- A call of `pop` begins, if the thread is in none: `head.load()`.
  | pop
  -- The call of `pop` goes on. `left` is what a move leaves in the slot.
  | popper (behind : Nat) (left : T)
  deriving DecidableEq, Repr

/-- The place of the value that a load gets: so many stores behind the present one, or the one that
    the thread has seen before if that is newer. -/
def loadedAt (values : List Int32) (seen behind : Nat) : Nat :=
  max seen (values.length - 1 - behind)

namespace RingThreads

variable {T : Type} {Size : UInt64}

/-- A call returns. This is the place where it takes effect in the history. -/
def returned (s : RingThreads T Size) (call : QueueCall T) (answer : QueueAnswer T) :
    RingThreads T Size :=
  { s with history := s.history ++ [(call, answer)] }

/-- The next access of a call of `push`. After the load of `head` the call either returns `false` or
    is sure of its slot: the other thread can only make more room. The slot is written before `tail`
    is stored, so a `pop` that has seen the store finds the item. -/
def stepPusher (s : RingThreads T Size) (behind : Nat) : Except Failure (RingThreads T Size) :=
  match s.pusher with
  | .idle => .ok s
  | .loaded item t =>
    let s := { s with seenHead := loadedAt s.heads s.seenHead behind }
    if (t + 1) % Size = loadIndex (s.heads.getD s.seenHead 0) then
      .ok ({ s with pusher := .idle }.returned (.push item) (.pushed false))
    else .ok { s with pusher := .writing item t }
  | .writing item t =>
    if h : t.toNat < Size.toNat then
      .ok { s with
        queue := { s.queue with buffer := Function.update s.queue.buffer ⟨t.toNat, h⟩ item }
        pusher := .storing item t }
    else .error .outOfBounds
  | .storing item t =>
    .ok ({ s with
      queue := { s.queue with tail := storeIndex ((t + 1) % Size) }
      tails := s.tails ++ [storeIndex ((t + 1) % Size)]
      pusher := .idle }.returned (.push item) (.pushed true))

/-- The next access of a call of `pop`, the other way around: the item is taken out of the slot
    before `head` is stored and the slot given back. -/
def stepPopper (s : RingThreads T Size) (behind : Nat) (left : T) :
    Except Failure (RingThreads T Size) :=
  match s.popper with
  | .idle => .ok s
  | .loaded h =>
    let s := { s with seenTail := loadedAt s.tails s.seenTail behind }
    if h = loadIndex (s.tails.getD s.seenTail 0) then
      .ok ({ s with popper := .idle }.returned .pop (.popped none))
    else .ok { s with popper := .reading h }
  | .reading h =>
    if hslot : h.toNat < Size.toNat then
      .ok { s with
        queue := { s.queue with buffer := Function.update s.queue.buffer ⟨h.toNat, hslot⟩ left }
        popper := .storing (s.queue.buffer ⟨h.toNat, hslot⟩) h }
    else .error .outOfBounds
  | .storing item h =>
    .ok ({ s with
      queue := { s.queue with head := storeIndex ((h + 1) % Size) }
      heads := s.heads ++ [storeIndex ((h + 1) % Size)]
      popper := .idle }.returned .pop (.popped (some item)))

/-- One access by one of the two. A thread makes one call at a time: the beginning of another one
    while it is in a call is no step. -/
def step (s : RingThreads T Size) : RingStep T → Except Failure (RingThreads T Size)
  | .push item =>
    match s.pusher with
    | .idle => .ok { s with pusher := .loaded item (loadIndex s.queue.tail) }
    | _ => .ok s
  | .pusher behind => s.stepPusher behind
  | .pop =>
    match s.popper with
    | .idle => .ok { s with popper := .loaded (loadIndex s.queue.head) }
    | _ => .ok s
  | .popper behind left => s.stepPopper behind left

/-- A fresh queue, and what the two threads do to it in any order. -/
def run [Inhabited T] (steps : List (RingStep T)) : Except Failure (RingThreads T Size) :=
  steps.foldlM step { queue := .new }

end RingThreads

end Messenger
