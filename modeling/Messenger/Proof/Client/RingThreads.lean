import Mathlib.Data.List.GetD
import Messenger.Lib.History
import Messenger.Model.Ring
import Messenger.Proof.Client.Ring

/-!
# The ring with a thread on each side

However the accesses of the two threads are interleaved, there is a ring of slots that the shared
state follows (`Follows`): the ring as it was after the last call that has been completed. A call
under way has already been taken by the shared state in part, an item that is written and not yet
counted, or one that is moved out and not yet given up; the places of the threads say which part.

A thread may see the other's index late. That does no harm, because the indices only ever go on: an
index that is late shows the ring fuller to the thread that pushes, and emptier to the thread that
pops, than it is. So what goes in comes out in order, and the price is a call that is refused
without need: the ring is not linearizable as the bounded queue. It is if no load is late.

The two indices are counted from the start and not round the ring: `popped` stores of `head` and
`popped + ring.count` of `tail`. The invariant that carries the proof is that each thread stays
within what it has seen: a `push` less than a full turn ahead of the last `head` that it was given
(`room`), a `pop` never ahead of the last `tail` (`seenTail`).
-/

set_option autoImplicit false

namespace Messenger

open Messenger.Lib

/-! ## Values of an index -/

/-- The values that an index has had after `n` stores. The `k`-th is `k` counted round the ring, so
    knowing which store a value is from is knowing the count, and not only its remainder. -/
structure Logged (Size : UInt64) (values : List Int32) (n : Nat) : Prop where
  length : values.length = n + 1
  value : ∀ k ≤ n, (loadIndex (values.getD k 0)).toNat = k % Size.toNat

namespace Logged

variable {Size : UInt64} {values : List Int32} {n : Nat}

/-- A load gets one of the values, and none that is older than what the thread has seen. -/
theorem loadedAt_mem (h : Logged Size values n) {seen : Nat} (hseen : seen ≤ n) (behind : Nat) :
    seen ≤ loadedAt values seen behind ∧ loadedAt values seen behind ≤ n := by
  unfold loadedAt
  rw [h.length]
  omega

theorem loadedAt_current (h : Logged Size values n) {seen : Nat} (hseen : seen ≤ n) :
    loadedAt values seen 0 = n := by
  unfold loadedAt
  rw [h.length]
  omega

theorem store (h : Logged Size values n) {v : Int32}
    (hv : (loadIndex v).toNat = (n + 1) % Size.toNat) : Logged Size (values ++ [v]) (n + 1) where
  length := by rw [List.length_append, h.length, List.length_singleton]
  value k hk := by
    have hlength := h.length
    by_cases hlast : k = n + 1
    · rw [hlast, ← hlength, List.getD_append_right _ _ _ _ (Nat.le_refl _), Nat.sub_self]
      rw [hlength]
      exact hv
    · rw [List.getD_append _ _ _ _ (by omega)]
      exact h.value k (by omega)

end Logged

/-- Two numbers at most a turn apart are at the same place of the ring if they are the same or a
    whole turn apart. -/
theorem mod_eq_mod_iff {n a b : Nat} (hab : a ≤ b) (hb : b ≤ a + n) :
    b % n = a % n ↔ b = a ∨ b = a + n := by
  constructor
  · intro h
    obtain ⟨k, hk⟩ := (Nat.modEq_iff_dvd' hab).mp (show a ≡ b [MOD n] from h.symm)
    rcases k with _ | _ | k
    · exact .inl (by omega)
    · exact .inr (by omega)
    · have hle : n * 2 ≤ n * (k + 1 + 1) := Nat.mul_le_mul_left n (by omega)
      exact .inl (by omega)
  · rintro (rfl | rfl)
    · rfl
    · exact Nat.add_mod_right a n

section

variable {T : Type} {Size : UInt64}

/-- The item at the head has been moved out of its slot. -/
def PopAt.Moved : PopAt T → Prop
  | .storing _ _ => True
  | _ => False

/-- The variables of a `push` fit the ring, and what it has found out still holds. What a thread has
    read earlier stays true because only that thread could make it false: the other one can only
    make more room. -/
def PushAt.Fits (tail : Fin Size.toNat) (buffer : Fin Size.toNat → T) (room : Prop) :
    PushAt T → Prop
  | .idle => True
  | .loaded _ t => t.toNat = tail.val
  | .writing _ t => t.toNat = tail.val ∧ room
  | .storing item t => t.toNat = tail.val ∧ room ∧ buffer tail = item

/-- The variables of a `pop` fit the ring, and what it has found out still holds. In `storing` the
    item is out of its slot and in a variable. -/
def PopAt.Fits (head : Fin Size.toNat) (first : T) (available : Prop) : PopAt T → Prop
  | .idle => True
  | .loaded h => h.toNat = head.val
  | .reading h => h.toNat = head.val ∧ available
  | .storing item h => h.toNat = head.val ∧ available ∧ first = item

/-- The shared state is on the way from this ring, from which `popped` items have come out, to the
    next.

    `slots` says that the items are where the ring has them, but for one that has been moved out and
    not yet given up. `room` and `seenTail` are the invariants of the module text, and the last two
    fields say where the threads are. -/
structure RingThreads.Follows (s : RingThreads T Size) (ring : LockFreeQueue T Size.toNat)
    (popped : Nat) : Prop where
  head : (loadIndex s.queue.head).toNat = ring.head.val
  tail : (loadIndex s.queue.tail).toNat = ring.tail.val
  slots : ∀ i < ring.count, (i = 0 → ¬s.popper.Moved) →
    s.queue.buffer (ring.slot i) = ring.buffer (ring.slot i)
  heads : Logged Size s.heads popped
  tails : Logged Size s.tails (popped + ring.count)
  turn : ring.head.val = popped % Size.toNat
  seenHead : s.seenHead ≤ popped
  room : popped + ring.count < s.seenHead + Size.toNat
  seenTail : popped ≤ s.seenTail ∧ s.seenTail ≤ popped + ring.count
  pusher : s.pusher.Fits ring.tail s.queue.buffer
    (popped + ring.count + 1 < s.seenHead + Size.toNat)
  popper : s.popper.Fits ring.head (ring.buffer ring.head) (popped < s.seenTail)

/-- The two threads share a ring that holds the items. -/
def RingThreads.Holding (s : RingThreads T Size) (items : List T) : Prop :=
  ∃ ring popped, s.Follows ring popped ∧ ring.items = items

variable {s : RingThreads T Size} {ring : LockFreeQueue T Size.toNat} {popped : Nat}

/-! ## Slots -/

namespace LockFreeQueue

/-- With an item in the ring, the slot that is written next is not the one that is read next. -/
theorem tail_ne_head (hcount : 0 < ring.count) : ring.tail ≠ ring.head := by
  intro h
  have hzero := ring.head_eq_tail_iff.mp h.symm
  omega

theorem slot_ne_head {i : Nat} (hi : i < ring.count) (hne : i ≠ 0) : ring.slot i ≠ ring.head := by
  intro h
  exact hne (ring.slot_inj (hi.trans ring.count_lt) ring.head.pos (h.trans ring.slot_zero.symm))

theorem push_of_room (hroom : ring.count + 1 < Size.toNat) (item : T) :
    (ring.push item).2 = { ring with
      buffer := Function.update ring.buffer ring.tail item, tail := next ring.tail } := by
  unfold push
  dsimp only
  rw [if_neg]
  intro hfull
  have := ring.next_tail_eq_head_iff.mp hfull
  omega

theorem count_push (hroom : ring.count + 1 < Size.toNat) (item : T) :
    (ring.push item).2.count = ring.count + 1 := by
  rw [← items_length, ring.push_items, if_neg (by omega), List.length_append, items_length]
  rfl

theorem pop_of_item (hcount : 0 < ring.count) :
    ring.pop.2 = { ring with head := next ring.head } := by
  unfold pop
  rw [if_neg (tail_ne_head hcount).symm]

theorem count_pop : ring.pop.2.count = ring.count - 1 := by
  rw [← items_length, ring.pop_items.2, List.length_tail, items_length]

theorem slot_pop (hcount : 0 < ring.count) (i : Nat) : ring.pop.2.slot i = ring.slot (i + 1) := by
  rw [pop_of_item hcount]
  exact ring.slot_next_head i

end LockFreeQueue

namespace RingThreads

/-! ## What a thread finds out -/

/-- Counted from the start, `tail` is as far ahead of `head` as there are items. -/
theorem Follows.tail_turn (h : s.Follows ring popped) :
    ring.tail.val = (popped + ring.count) % Size.toNat := by
  rw [← ring.slot_count]
  show (ring.head.val + ring.count) % Size.toNat = _
  rw [h.turn, Nat.mod_add_mod]

/-- `t_next == head.load()` holds for a `head` on which `tail` has gained a whole turn but one. The
    load may be of any of the values since the last one that the thread has seen; that `tail` has
    not got further than a turn from that one is what makes the comparison of remainders one of
    numbers. -/
theorem Follows.full_iff (h : s.Follows ring popped) (hsize : Size.toNat ≤ 2 ^ 31) {t : UInt64}
    (ht : t.toNat = ring.tail.val) {k : Nat} (hseen : s.seenHead ≤ k) (hk : k ≤ popped) :
    (t + 1) % Size = loadIndex (s.heads.getD k 0) ↔ popped + ring.count + 1 = k + Size.toNat := by
  have hroom := h.room
  have hnext : (LockFreeQueue.next ring.tail).val = (popped + ring.count + 1) % Size.toNat := by
    show (ring.tail.val + 1) % Size.toNat = _
    rw [h.tail_turn, Nat.mod_add_mod]
  rw [← UInt64.toNat_inj, (loadIndex_next hsize ht).1, h.heads.value k hk, hnext,
    mod_eq_mod_iff (by omega) (by omega)]
  omega

/-- `h == tail.load()` holds for the `tail` that there was when `head` caught up with it. -/
theorem Follows.empty_iff (h : s.Follows ring popped) {i : UInt64} (hi : i.toNat = ring.head.val)
    {k : Nat} (hseen : s.seenTail ≤ k) (hk : k ≤ popped + ring.count) :
    i = loadIndex (s.tails.getD k 0) ↔ k = popped := by
  have hlt := ring.count_lt
  have hpopped := h.seenTail.1
  rw [← UInt64.toNat_inj, hi, h.tails.value k hk, h.turn, eq_comm,
    mod_eq_mod_iff (by omega) (by omega)]
  omega

theorem Follows.count_pos (h : s.Follows ring popped) (havailable : popped < s.seenTail) :
    0 < ring.count := by
  have := h.seenTail.2
  omega

theorem Follows.count_lt (h : s.Follows ring popped)
    (hroom : popped + ring.count + 1 < s.seenHead + Size.toNat) : ring.count + 1 < Size.toNat := by
  have := h.seenHead
  omega

/-! ## The thread that pushes -/

theorem Follows.with_pusher (h : s.Follows ring popped) {seen : Nat} (hseen : s.seenHead ≤ seen)
    (hle : seen ≤ popped) (place : PushAt T)
    (hplace : place.Fits ring.tail s.queue.buffer (popped + ring.count + 1 < seen + Size.toNat)) :
    { s with seenHead := seen, pusher := place }.Follows ring popped :=
  { h with
    seenHead := hle
    room := Nat.lt_of_lt_of_le h.room (Nat.add_le_add_right hseen _)
    pusher := hplace }

theorem Follows.with_popper (h : s.Follows ring popped) {seen : Nat} (hseen : s.seenTail ≤ seen)
    (hle : seen ≤ popped + ring.count) (place : PopAt T)
    (hplace : place.Fits ring.head (ring.buffer ring.head) (popped < seen))
    (hmoved : place.Moved ↔ s.popper.Moved) :
    { s with seenTail := seen, popper := place }.Follows ring popped :=
  { h with
    slots := fun i hi hzero => h.slots i hi fun h0 => mt hmoved.mpr (hzero h0)
    seenTail := ⟨h.seenTail.1.trans hseen, hle⟩
    popper := hplace }

/-- The item is in its slot, which holds nothing that counts. -/
theorem Follows.written (h : s.Follows ring popped) {item : T} {t : UInt64}
    (ht : t.toNat = ring.tail.val) (hroom : popped + ring.count + 1 < s.seenHead + Size.toNat)
    (hslot : t.toNat < Size.toNat) :
    Follows { s with
      queue := { s.queue with buffer := Function.update s.queue.buffer ⟨t.toNat, hslot⟩ item }
      pusher := .storing item t } ring popped := by
  have htail : (⟨t.toNat, hslot⟩ : Fin Size.toNat) = ring.tail := Fin.ext ht
  rw [htail]
  refine { h with slots := ?_, pusher := ⟨ht, hroom, Function.update_self ..⟩ }
  intro i hi hzero
  refine Eq.trans ?_ (h.slots i hi hzero)
  exact Function.update_of_ne (ring.slot_ne_tail hi) ..

/-- **The item counts.** What the other thread has found out is about the head, and stays so. The
    hard field is `popper`: the ring's buffer has changed at the tail, and the item that the other
    thread has moved out is that of the head, another slot. -/
theorem Follows.counted (h : s.Follows ring popped) (hsize : Size.toNat ≤ 2 ^ 31) {item : T}
    {t : UInt64} (hat : s.pusher = .storing item t) :
    Follows { s with
      queue := { s.queue with tail := storeIndex ((t + 1) % Size) }
      tails := s.tails ++ [storeIndex ((t + 1) % Size)]
      pusher := .idle } (ring.push item).2 popped := by
  have hfits := h.pusher
  rw [hat] at hfits
  obtain ⟨ht, hseen, hitem⟩ := hfits
  have hroom := h.count_lt hseen
  have hcount := LockFreeQueue.count_push hroom item
  have hstored := (loadIndex_next hsize ht).2
  have hlog : Logged Size (s.tails ++ [storeIndex ((t + 1) % Size)])
      (popped + (ring.count + 1)) := by
    refine h.tails.store (hstored.trans ?_)
    show (ring.tail.val + 1) % Size.toNat = _
    rw [h.tail_turn, Nat.mod_add_mod]
  have hpopper : s.popper.Fits ring.head
      (Function.update ring.buffer ring.tail item ring.head) (popped < s.seenTail) := by
    have hfits := h.popper
    cases hpop : s.popper with
    | idle => trivial
    | loaded i =>
      rw [hpop] at hfits
      exact hfits
    | reading i =>
      rw [hpop] at hfits
      exact hfits
    | storing item' i =>
      rw [hpop] at hfits
      refine ⟨hfits.1, hfits.2.1, Eq.trans ?_ hfits.2.2⟩
      exact Function.update_of_ne (LockFreeQueue.tail_ne_head (h.count_pos hfits.2.1)).symm ..
  obtain ⟨hpopped, hseenTail⟩ := h.seenTail
  refine ⟨?_, ?_, ?_, h.heads, ?_, ?_, h.seenHead, ?_, ⟨hpopped, ?_⟩, trivial, ?_⟩
  · rw [LockFreeQueue.push_of_room hroom]
    exact h.head
  · rw [LockFreeQueue.push_of_room hroom]
    exact hstored
  · intro i hi hzero
    rw [LockFreeQueue.push_of_room hroom]
    show s.queue.buffer (ring.slot i) = Function.update ring.buffer ring.tail item (ring.slot i)
    by_cases hlast : i = ring.count
    · rw [hlast, ring.slot_count, Function.update_self, hitem]
    · have hi' : i < ring.count := by omega
      rw [Function.update_of_ne (ring.slot_ne_tail hi')]
      exact h.slots i hi' hzero
  · rw [hcount]
    exact hlog
  · rw [LockFreeQueue.push_of_room hroom]
    exact h.turn
  · rw [hcount]
    exact hseen
  · rw [hcount]
    exact Nat.le_succ_of_le hseenTail
  · rw [LockFreeQueue.push_of_room hroom]
    exact hpopper

/-! ## The thread that pops -/

/-- The oldest item is out of its slot. What is left in the slot is any value, as after a move. -/
theorem Follows.moved (h : s.Follows ring popped) {i : UInt64} (hat : s.popper = .reading i)
    (hslot : i.toNat < Size.toNat) (left : T) :
    Follows { s with
      queue := { s.queue with buffer := Function.update s.queue.buffer ⟨i.toNat, hslot⟩ left }
      popper := .storing (s.queue.buffer ⟨i.toNat, hslot⟩) i } ring popped := by
  have hfits := h.popper
  rw [hat] at hfits
  obtain ⟨hi, havailable⟩ := hfits
  have hcount := h.count_pos havailable
  have hhead : (⟨i.toNat, hslot⟩ : Fin Size.toNat) = ring.head := Fin.ext hi
  have hfirst : s.queue.buffer ring.head = ring.buffer ring.head := by
    rw [← ring.slot_zero]
    exact h.slots 0 hcount fun _ => by rw [hat]; exact id
  rw [hhead]
  refine { h with slots := ?_, pusher := ?_, popper := ⟨hi, havailable, hfirst.symm⟩ }
  · intro j hj hzero
    have hne : j ≠ 0 := fun h0 => hzero h0 trivial
    refine Eq.trans ?_ (h.slots j hj fun h0 => absurd h0 hne)
    exact Function.update_of_ne (LockFreeQueue.slot_ne_head hj hne) ..
  · -- the slot that a push has written is not the one that is read
    have hfits := h.pusher
    cases hpush : s.pusher with
    | idle => trivial
    | loaded item t =>
      rw [hpush] at hfits
      exact hfits
    | writing item t =>
      rw [hpush] at hfits
      exact hfits
    | storing item t =>
      rw [hpush] at hfits
      refine ⟨hfits.1, hfits.2.1, Eq.trans ?_ hfits.2.2⟩
      exact Function.update_of_ne (LockFreeQueue.tail_ne_head hcount) ..

/-- **Its slot is given up.** One more has come out and one fewer is in, so for the thread that
    pushes nothing has changed before it looks again. -/
theorem Follows.given_up (h : s.Follows ring popped) (hsize : Size.toNat ≤ 2 ^ 31) {item : T}
    {i : UInt64} (hat : s.popper = .storing item i) :
    Follows { s with
      queue := { s.queue with head := storeIndex ((i + 1) % Size) }
      heads := s.heads ++ [storeIndex ((i + 1) % Size)]
      popper := .idle } ring.pop.2 (popped + 1) := by
  have hfits := h.popper
  rw [hat] at hfits
  obtain ⟨hi, havailable, -⟩ := hfits
  have hcount := h.count_pos havailable
  have hsum : popped + 1 + ring.pop.2.count = popped + ring.count := by
    rw [LockFreeQueue.count_pop]
    omega
  have hstored := (loadIndex_next hsize hi).2
  have hturn : (LockFreeQueue.next ring.head).val = (popped + 1) % Size.toNat := by
    show (ring.head.val + 1) % Size.toNat = _
    rw [h.turn, Nat.mod_add_mod]
  have htail : ring.pop.2.tail = ring.tail := by rw [LockFreeQueue.pop_of_item hcount]
  have hhead : ring.pop.2.head = LockFreeQueue.next ring.head := by
    rw [LockFreeQueue.pop_of_item hcount]
  refine ⟨hhead ▸ hstored, htail ▸ h.tail, ?_, h.heads.store (hstored.trans hturn), ?_, ?_,
    Nat.le_succ_of_le h.seenHead, ?_, ⟨havailable, ?_⟩, ?_, trivial⟩
  · intro j hj _
    rw [LockFreeQueue.count_pop] at hj
    rw [LockFreeQueue.slot_pop hcount, LockFreeQueue.pop_of_item hcount]
    exact h.slots (j + 1) (by omega) fun h0 => absurd h0 (Nat.succ_ne_zero j)
  · rw [hsum]
    exact h.tails
  · rw [hhead]
    exact hturn
  · rw [hsum]
    exact h.room
  · rw [hsum]
    exact h.seenTail.2
  · rw [hsum, htail]
    exact h.pusher

/-! ## One access -/

end RingThreads

/-- The access does not load a value that has been overwritten. -/
def RingStep.Current : RingStep T → Prop
  | .pusher behind => behind = 0
  | .popper behind _ => behind = 0
  | _ => True

/-- How the ring answers a call: as the queue of `Size - 1` items does, or it refuses, and it does
    not refuse without need if loads are current. -/
def RingAnswers (Size : UInt64) (current : Prop) (items : List T) (entry : QueueEntry T)
    (items' : List T) : Prop :=
  Fifo.MayRefuse (Size.toNat - 1) items entry items' ∧
    (current → Fifo.Answers (Size.toNat - 1) items entry items')

theorem RingAnswers.of_answers {current : Prop} {items items' : List T} {entry : QueueEntry T}
    (h : Fifo.Answers (Size.toNat - 1) items entry items') :
    RingAnswers Size current items entry items' :=
  ⟨.inl h, fun _ => h⟩

namespace RingThreads

/-- What an access may do, compared with the queue. -/
abbrev Completed (current : Prop) (s : RingThreads T Size) (items : List T)
    (after : Except Failure (RingThreads T Size)) : Prop :=
  Completes (RingAnswers Size current) Holding RingThreads.history s items after

variable {current : Prop}

theorem Follows.under_way {s' : RingThreads T Size} (h : s'.Follows ring popped)
    (hhistory : s'.history = s.history) : s.Completed current ring.items (.ok s') :=
  ⟨s', rfl, .inl ⟨hhistory, ring, popped, h, rfl⟩⟩

theorem Follows.complete {s' : RingThreads T Size} {ring' : LockFreeQueue T Size.toNat}
    (h : s'.Follows ring' popped) (hhistory : s'.history = s.history) {call : QueueCall T}
    {answer : QueueAnswer T}
    (hcall : RingAnswers Size current ring.items (call, answer) ring'.items) :
    s.Completed current ring.items (.ok (s'.returned call answer)) := by
  refine ⟨_, rfl, .inr ⟨(call, answer), ring'.items, ?_, hcall, ring', popped, { h with }, rfl⟩⟩
  show s'.history ++ [(call, answer)] = _
  rw [hhistory]

/-- The thread that pushes, at each of its places. The call is over at two of them: when the ring
    looks full, where the answer may be wrong if `head` was seen late, and when the new `tail` is
    stored, where it is right in any case. -/
theorem Follows.stepPusher (h : s.Follows ring popped) (hsize : Size.toNat ≤ 2 ^ 31) (behind : Nat)
    (hcurrent : current → behind = 0) : s.Completed current ring.items (s.stepPusher behind) := by
  have hfits := h.pusher
  have hlength := ring.items_length
  unfold RingThreads.stepPusher
  cases hat : s.pusher with
  | idle => exact h.under_way rfl
  | loaded item t =>
    rw [hat] at hfits
    obtain ⟨hseen, hle⟩ := h.heads.loadedAt_mem h.seenHead behind
    have hroom := h.room
    dsimp only
    by_cases hfull : popped + ring.count + 1 = loadedAt s.heads s.seenHead behind + Size.toNat
    · rw [if_pos ((h.full_iff hsize hfits hseen hle).mpr hfull)]
      refine (h.with_pusher hseen hle .idle trivial).complete rfl
        ⟨.inr ⟨trivial, rfl⟩, fun hc => ?_⟩
      -- seen with the present `head`, a full ring is full
      rw [hcurrent hc, h.heads.loadedAt_current h.seenHead] at hfull
      unfold Fifo.Answers Fifo.step
      dsimp only
      rw [if_pos (by omega)]
    · rw [if_neg (mt (h.full_iff hsize hfits hseen hle).mp hfull)]
      exact (h.with_pusher hseen hle (.writing item t) ⟨hfits, by omega⟩).under_way rfl
  | writing item t =>
    rw [hat] at hfits
    have hslot : t.toNat < Size.toNat := hfits.1 ▸ ring.tail.isLt
    dsimp only
    rw [dif_pos hslot]
    exact (h.written hfits.1 hfits.2 hslot).under_way rfl
  | storing item t =>
    rw [hat] at hfits
    have hroom := h.count_lt hfits.2.1
    refine (h.counted hsize hat).complete rfl (.of_answers ?_)
    unfold Fifo.Answers Fifo.step
    dsimp only
    rw [if_neg (by omega), ring.push_items, if_neg (by omega)]

/-- The thread that pops, at each of its places. Here it is the empty ring that may be seen without
    need. -/
theorem Follows.stepPopper (h : s.Follows ring popped) (hsize : Size.toNat ≤ 2 ^ 31) (behind : Nat)
    (left : T) (hcurrent : current → behind = 0) :
    s.Completed current ring.items (s.stepPopper behind left) := by
  have hfits := h.popper
  have hlength := ring.items_length
  unfold RingThreads.stepPopper
  cases hat : s.popper with
  | idle => exact h.under_way rfl
  | loaded i =>
    rw [hat] at hfits
    obtain ⟨hseen, hle⟩ := h.tails.loadedAt_mem h.seenTail.2 behind
    have hpopped := h.seenTail.1
    have hplace : (PopAt.idle : PopAt T).Moved ↔ s.popper.Moved := by
      rw [hat]
      exact Iff.rfl
    dsimp only
    by_cases hempty : loadedAt s.tails s.seenTail behind = popped
    · rw [if_pos ((h.empty_iff hfits hseen hle).mpr hempty)]
      refine (h.with_popper hseen hle .idle trivial hplace).complete rfl
        ⟨.inr ⟨trivial, rfl⟩, fun hc => ?_⟩
      rw [hcurrent hc, h.tails.loadedAt_current h.seenTail.2] at hempty
      have hnil : ring.items = [] := List.length_eq_zero_iff.mp (by omega)
      rw [hnil]
      rfl
    · rw [if_neg (mt (h.empty_iff hfits hseen hle).mp hempty)]
      refine (h.with_popper hseen hle (.reading i) ⟨hfits, by omega⟩ ?_).under_way rfl
      exact hplace
  | reading i =>
    rw [hat] at hfits
    have hslot : i.toNat < Size.toNat := hfits.1 ▸ ring.head.isLt
    dsimp only
    rw [dif_pos hslot]
    exact (h.moved hat hslot left).under_way rfl
  | storing item i =>
    rw [hat] at hfits
    refine (h.given_up hsize hat).complete rfl (.of_answers ?_)
    have hfirst : ring.items.head? = some item := by
      rw [← ring.pop_items.1, LockFreeQueue.pop,
        if_neg (LockFreeQueue.tail_ne_head (h.count_pos hfits.2.1)).symm, hfits.2.2]
    unfold Fifo.Answers Fifo.step
    dsimp only
    rw [hfirst, ring.pop_items.2]

/-- **One access** of either thread keeps the shared state on its way, and if it is the last of a
    call, the queue may give the same answer now. -/
theorem Holding.step {items : List T} (h : s.Holding items) (hsize : Size.toNat ≤ 2 ^ 31)
    (e : RingStep T) (hcurrent : current → e.Current) : s.Completed current items (s.step e) := by
  obtain ⟨ring, popped, h, rfl⟩ := h
  cases e with
  | push item =>
    unfold RingThreads.step
    cases hat : s.pusher with
    | idle =>
      exact (h.with_pusher (Nat.le_refl _) h.seenHead (.loaded item _) h.tail).under_way rfl
    | loaded | writing | storing => exact h.under_way rfl
  | pusher behind => exact h.stepPusher hsize behind hcurrent
  | pop =>
    unfold RingThreads.step
    cases hat : s.popper with
    | idle =>
      refine (h.with_popper (Nat.le_refl _) h.seenTail.2 (.loaded _) h.head ?_).under_way rfl
      rw [hat]
      exact Iff.rfl
    | loaded | reading | storing => exact h.under_way rfl
  | popper behind left => exact h.stepPopper hsize behind left hcurrent

/-- Before the first access both indices have one value, zero, and both threads are idle. -/
theorem new_holding [Inhabited T] (hsize : 2 ≤ Size.toNat) :
    Holding ({ queue := .new } : RingThreads T Size) [] := by
  have : NeZero Size.toNat := ⟨by omega⟩
  have hcount : (LockFreeQueue.new : LockFreeQueue T Size.toNat).count = 0 := by
    rw [← LockFreeQueue.items_length, LockFreeQueue.new_items]
    rfl
  have hlog : Logged Size [0] 0 := by
    refine ⟨rfl, fun k hk => ?_⟩
    rw [Nat.le_zero.mp hk, Nat.zero_mod]
    rfl
  refine ⟨.new, 0,
    ⟨rfl, rfl, fun _ _ _ => rfl, hlog, ?_, ?_, Nat.le_refl 0, ?_, ⟨Nat.le_refl 0, ?_⟩,
    trivial, trivial⟩, LockFreeQueue.new_items⟩
  · rw [hcount]
    exact hlog
  · exact (Nat.zero_mod _).symm
  · rw [hcount]
    show 0 < 0 + Size.toNat
    omega
  · exact Nat.zero_le _

/-- **Every run**: nothing is accessed outside the buffer, and the calls completed so far are
    answered as the queue may answer them. By the library's rule for runs, with `Holding.step` as
    the step. -/
theorem run_explained [Inhabited T] (hsize : 2 ≤ Size.toNat) (hfits : Size.toNat ≤ 2 ^ 31)
    (steps : List (RingStep T)) :
    ∃ (s : RingThreads T Size) (items : List T), run steps = .ok s ∧ s.Holding items ∧
      Explains (RingAnswers Size (∀ e ∈ steps, e.Current)) [] s.history items :=
  explains_run (fun e he _ _ h => h.step hfits e fun hc => hc e he) (new_holding hsize) .nil

end RingThreads

end

section

variable {T : Type} {Size : UInt64}

/-- Both threads are about to access the same slot, and one of them writes it. -/
def RingThreads.Race (s : RingThreads T Size) : Prop :=
  ∃ item t h, s.pusher = .writing item t ∧ s.popper = .reading h ∧ t = h

/-- **The two threads never meet in a slot**: at no point of any interleaving is one about to
    write the slot that the other is about to move from. -/
theorem ring_race_free [Inhabited T] (hsize : 2 ≤ Size.toNat) (hfits : Size.toNat ≤ 2 ^ 31)
    {steps : List (RingStep T)} {s : RingThreads T Size} (hrun : RingThreads.run steps = .ok s) :
    ¬s.Race := by
  rintro ⟨item, t, i, hpush, hpop, rfl⟩
  obtain ⟨s', items, hrun', ⟨ring, popped, h, -⟩, -⟩ := RingThreads.run_explained hsize hfits steps
  obtain rfl : s' = s := Except.ok.inj (hrun'.symm.trans hrun)
  have hpushAt := h.pusher
  have hpopAt := h.popper
  rw [hpush] at hpushAt
  rw [hpop] at hpopAt
  exact LockFreeQueue.tail_ne_head (h.count_pos hpopAt.2) (Fin.ext (hpushAt.1.symm.trans hpopAt.1))

end

/-- An item is in the ring, and the next is on its way while the first is taken out. -/
def writeWhileRead : List (RingStep UInt8) :=
  [.push 7, .pusher 0, .pusher 0, .pusher 0, .push 8, .pusher 0, .pop, .popper 0 0]

/-- One thread is about to write a slot and the other about to read one. They are two slots. -/
theorem ring_race_free_overlap :
    (RingThreads.run writeWhileRead : Except Failure (RingThreads UInt8 4)).map
        (fun s => (s.pusher, s.popper)) = .ok (.writing 8 1, .reading 0) ∧
      ∃ s : RingThreads UInt8 4, RingThreads.run writeWhileRead = .ok s ∧ ¬s.Race := by
  refine ⟨rfl, ?_⟩
  obtain ⟨s, -, hrun, -, -⟩ :=
    RingThreads.run_explained (by decide : 2 ≤ (4 : UInt64).toNat) (by decide) writeWhileRead
  exact ⟨s, hrun, ring_race_free (by decide) (by decide) hrun⟩

end Messenger
