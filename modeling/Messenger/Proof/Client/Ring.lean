import Messenger.Proof.Client.Queue

/-!
# The ring as it is stored

The indices of `LockFreeQueue<T, Size>` are of type `int`, and `Size` is a `size_t`. As long
as every index fits an `int` the ring is the ring of slots (`Represents`), and so a bounded
first-in first-out queue. A ring of more than 2^31 slots has an index that does not fit: it
is read back negative, and the next `push` is past the end of the buffer.

The second half is about such rings. A ring that answered like a queue would take 2^31 items, one
after the other, and then be at the index that is read back as 2^64 - 2^31. From there it takes a
buffer of nearly 2^64 slots not to be out of bounds, and even that one is left by an index
further on (`AtomicQueue.Behaves.size_le`).

The first half has to compare words with slots. A new index is computed in 64 bits, cut to 32 when
it is stored, and extended by its sign when it is loaded; for an index that fits an `int` this is
the identity (`loadIndex_storeIndex`), and then each call does the same to both rings. The main
theorem is an equivalence, so the second half cannot be left to an example: every `Size` above 2^31
has to fail, at a call that can be named.
-/

set_option autoImplicit false

namespace Messenger

open Messenger.Lib

/-! ## Indices -/

/-- Storing cuts off the upper half of the word, and loading extends the sign. -/
theorem toBitVec_loadIndex_storeIndex (n : UInt64) :
    (loadIndex (storeIndex n)).toBitVec = (n.toBitVec.setWidth 32).signExtend 64 := rfl

/-- What an `int` gives back of an index: the upper half of the range comes back negative. -/
theorem toNat_loadIndex_storeIndex {n : UInt64} (hn : n.toNat < 2 ^ 32) :
    (loadIndex (storeIndex n)).toNat
      = if n.toNat < 2 ^ 31 then n.toNat else 2 ^ 64 - 2 ^ 32 + n.toNat := by
  have hlow : (n.toBitVec.setWidth 32).toNat = n.toNat :=
    (BitVec.toNat_setWidth ..).trans (Nat.mod_eq_of_lt hn)
  show (loadIndex (storeIndex n)).toBitVec.toNat = _
  rw [toBitVec_loadIndex_storeIndex, BitVec.toNat_signExtend, BitVec.toNat_setWidth, hlow,
    Nat.mod_eq_of_lt (Nat.lt_trans hn (by decide)), BitVec.msb_eq_decide, hlow]
  by_cases hsign : n.toNat < 2 ^ 31
  · rw [if_pos hsign, decide_eq_false (by omega)]
    rfl
  · rw [if_neg hsign, decide_eq_true (by omega), if_pos rfl]
    omega

theorem loadIndex_storeIndex {n : UInt64} (hn : n.toNat < 2 ^ 31) :
    loadIndex (storeIndex n) = n := by
  apply UInt64.toNat_inj.mp
  rw [toNat_loadIndex_storeIndex (by omega), if_pos hn]

theorem storeIndex_congr {m n : UInt64} (h : m.toNat % 2 ^ 32 = n.toNat % 2 ^ 32) :
    storeIndex m = storeIndex n := by
  have hlow : m.toUInt32 = n.toUInt32 := by
    apply UInt32.toNat_inj.mp
    rw [UInt64.toNat_toUInt32, UInt64.toNat_toUInt32, h]
  unfold storeIndex
  rw [hlow]

theorem toNat_next {Size t : UInt64} (ht : t.toNat < 2 ^ 63) :
    ((t + 1) % Size).toNat = (t.toNat + 1) % Size.toNat := by
  rw [UInt64.toNat_mod, UInt64.toNat_add]
  congr 1
  exact Nat.mod_eq_of_lt (by simp; omega)

/-! ## Indices that fit -/

section

variable {T : Type} {Size : UInt64}

/-- The same buffer, and the indices are those of the slots. -/
structure AtomicQueue.Represents (q : AtomicQueue T Size) (ring : LockFreeQueue T Size.toNat) :
    Prop where
  buffer : q.buffer = ring.buffer
  head : (loadIndex q.head).toNat = ring.head.val
  tail : (loadIndex q.tail).toNat = ring.tail.val

variable {q : AtomicQueue T Size} {ring : LockFreeQueue T Size.toNat}

theorem loadIndex_next (hsize : Size.toNat ≤ 2 ^ 31) {t : UInt64} {slot : Fin Size.toNat}
    (ht : t.toNat = slot.val) :
    ((t + 1) % Size).toNat = (LockFreeQueue.next slot).val ∧
      (loadIndex (storeIndex ((t + 1) % Size))).toNat = (LockFreeQueue.next slot).val := by
  have hslot := slot.isLt
  have hnext : ((t + 1) % Size).toNat = (LockFreeQueue.next slot).val := by
    rw [toNat_next (by omega), ht]
    rfl
  refine ⟨hnext, ?_⟩
  rw [loadIndex_storeIndex, hnext]
  rw [hnext]
  exact Nat.lt_of_lt_of_le (LockFreeQueue.next slot).isLt hsize

/-- A `push` does the same to both. The test for a full ring compares words on one side and slots on
    the other, which is the same as long as both indices are those of slots. -/
theorem AtomicQueue.Represents.push (h : q.Represents ring) (hsize : Size.toNat ≤ 2 ^ 31)
    (item : T) :
    ∃ q', q.push item = .ok ((ring.push item).1, q') ∧ q'.Represents (ring.push item).2 := by
  obtain ⟨hnext, hstored⟩ := loadIndex_next hsize h.tail
  have hfull : (loadIndex q.tail + 1) % Size = loadIndex q.head ↔
      LockFreeQueue.next ring.tail = ring.head := by
    rw [← UInt64.toNat_inj, hnext, h.head, Fin.ext_iff]
  unfold AtomicQueue.push LockFreeQueue.push
  dsimp only
  by_cases hroom : LockFreeQueue.next ring.tail = ring.head
  · rw [if_pos hroom, if_pos (hfull.mpr hroom)]
    exact ⟨q, rfl, h⟩
  · have hslot : (loadIndex q.tail).toNat < Size.toNat := h.tail ▸ ring.tail.isLt
    rw [if_neg hroom, if_neg (mt hfull.mp hroom), dif_pos hslot]
    refine ⟨_, rfl, ⟨?_, h.head, hstored⟩⟩
    have hindex : (⟨(loadIndex q.tail).toNat, hslot⟩ : Fin Size.toNat) = ring.tail := Fin.ext h.tail
    dsimp only
    rw [hindex, h.buffer]

theorem AtomicQueue.Represents.pop (h : q.Represents ring) (hsize : Size.toNat ≤ 2 ^ 31) :
    ∃ q', q.pop = .ok (ring.pop.1, q') ∧ q'.Represents ring.pop.2 := by
  have hempty : loadIndex q.head = loadIndex q.tail ↔ ring.head = ring.tail := by
    rw [← UInt64.toNat_inj, h.head, h.tail, Fin.ext_iff]
  unfold AtomicQueue.pop LockFreeQueue.pop
  dsimp only
  by_cases hnone : ring.head = ring.tail
  · rw [if_pos hnone, if_pos (hempty.mpr hnone)]
    exact ⟨q, rfl, h⟩
  · have hslot : (loadIndex q.head).toNat < Size.toNat := h.head ▸ ring.head.isLt
    have hindex : (⟨(loadIndex q.head).toNat, hslot⟩ : Fin Size.toNat) = ring.head := Fin.ext h.head
    rw [if_neg hnone, if_neg (mt hempty.mp hnone), dif_pos hslot, hindex, h.buffer]
    exact ⟨_, rfl, ⟨rfl, (loadIndex_next hsize h.head).2, h.tail⟩⟩

theorem AtomicQueue.call_push {item : T} {accepted : Bool} {q' : AtomicQueue T Size}
    (h : q.push item = .ok (accepted, q')) : q.call (.push item) = .ok (.pushed accepted, q') := by
  show (q.push item).map _ = _
  rw [h]
  rfl

theorem AtomicQueue.call_pop {item : Option T} {q' : AtomicQueue T Size}
    (h : q.pop = .ok (item, q')) : q.call .pop = .ok (.popped item, q') := by
  show q.pop.map _ = _
  rw [h]
  rfl

/-- The ring as it is stored holds the items, oldest first. -/
def AtomicQueue.Holding (q : AtomicQueue T Size) (items : List T) : Prop :=
  ∃ ring, q.Represents ring ∧ ring.items = items

/-- **One call** is answered as the bounded queue answers it. -/
theorem AtomicQueue.Holding.call {items : List T} (h : q.Holding items)
    (hsize : Size.toNat ≤ 2 ^ 31) (c : QueueCall T) :
    ∃ q', q.call c = .ok ((Fifo.step (Size.toNat - 1) items c).1, q') ∧
      q'.Holding (Fifo.step (Size.toNat - 1) items c).2 := by
  obtain ⟨ring, hring, rfl⟩ := h
  cases c with
  | push item =>
    obtain ⟨q', hpush, hq'⟩ := hring.push hsize item
    rw [ring.push_accepted item] at hpush
    -- the ring keeps one slot free, the queue counts items
    have hfull : ring.items.length = Size.toNat - 1 ↔ ring.count + 1 = Size.toNat := by
      have hlt := ring.count_lt
      rw [ring.items_length]
      omega
    refine ⟨q', ?_, (ring.push item).2, hq', ?_⟩
    · rw [AtomicQueue.call_push hpush, Fifo.step]
      split
      · next h => rw [decide_eq_true (hfull.mp h)]; rfl
      · next h => rw [decide_eq_false (mt hfull.mpr h)]; rfl
    · rw [ring.push_items item, Fifo.step]
      split
      · next h => rw [if_pos (hfull.mpr h)]
      · next h => rw [if_neg (mt hfull.mp h)]
  | pop =>
    obtain ⟨q', hpop, hq'⟩ := hring.pop hsize
    obtain ⟨hfirst, hrest⟩ := ring.pop_items
    rw [hfirst] at hpop
    exact ⟨q', AtomicQueue.call_pop hpop, ring.pop.2, hq', hrest⟩

/-- A new ring holds nothing. It needs two slots, as one is always free. -/
theorem AtomicQueue.new_holding [Inhabited T] (hsize : 2 ≤ Size.toNat) :
    (AtomicQueue.new : AtomicQueue T Size).Holding [] := by
  have : NeZero Size.toNat := ⟨by omega⟩
  exact ⟨.new, ⟨rfl, rfl, rfl⟩, LockFreeQueue.new_items⟩

/-! ## An index that does not fit -/

/-- Nothing has been taken out, and `n` items have been put in. The indices are all that is said;
    what is in the buffer has no part in what follows. -/
structure AtomicQueue.Filled (q : AtomicQueue T Size) (n : Nat) : Prop where
  head : q.head = 0
  tail : q.tail = storeIndex (UInt64.ofNat n)

/-- Where the next item would go, as the source reads it back. -/
theorem AtomicQueue.Filled.toNat_tail {n : Nat} (h : q.Filled n) (hn : n < 2 ^ 32) :
    (loadIndex q.tail).toNat = if n < 2 ^ 31 then n else 2 ^ 64 - 2 ^ 32 + n := by
  have hindex : (UInt64.ofNat n).toNat = n := Nat.mod_eq_of_lt (by omega)
  rw [h.tail, toNat_loadIndex_storeIndex (by omega), hindex]

/-- An item that is taken is in a slot that exists, and is the next to be counted. -/
theorem AtomicQueue.Filled.accepted {n : Nat} (h : q.Filled n) (hn : n < 2 ^ 32) {item : T}
    {q' : AtomicQueue T Size} (hpush : q.push item = .ok (true, q')) :
    (loadIndex q.tail).toNat + 1 < Size.toNat ∧ q'.Filled (n + 1) := by
  unfold AtomicQueue.push at hpush
  dsimp only at hpush
  split at hpush
  · cases hpush
  next hroom =>
  split at hpush
  · next hslot =>
    obtain rfl := (Prod.mk.inj (Except.ok.inj hpush)).2
    have htail := h.toNat_tail hn
    have hlarge : Size.toNat < 2 ^ 64 := Size.toNat_lt
    have hsum : (loadIndex q.tail + 1).toNat = (loadIndex q.tail).toNat + 1 := by
      rw [UInt64.toNat_add]
      exact Nat.mod_eq_of_lt (by simp; omega)
    have hlt : (loadIndex q.tail).toNat + 1 < Size.toNat := by
      -- the last slot is followed by the first, and that one is not free
      refine Nat.lt_of_le_of_ne hslot fun hlast => hroom ?_
      apply UInt64.toNat_inj.mp
      rw [UInt64.toNat_mod, hsum, hlast, Nat.mod_self, h.head]
      rfl
    refine ⟨hlt, h.head, storeIndex_congr ?_⟩
    rw [UInt64.toNat_mod, hsum, Nat.mod_eq_of_lt hlt, htail]
    show _ = (n + 1) % 2 ^ 64 % 2 ^ 32
    split <;> omega
  · cases hpush

theorem AtomicQueue.push_of_call {item : T} {accepted : Bool} {q' : AtomicQueue T Size}
    (h : q.call (.push item) = .ok (.pushed accepted, q')) : q.push item = .ok (accepted, q') := by
  cases hpush : q.push item with
  | error e =>
    have hcall : q.call (.push item) = .error e := by
      show (q.push item).map _ = _
      rw [hpush]
      rfl
    rw [hcall] at h
    cases h
  | ok out =>
    rw [AtomicQueue.call_push hpush] at h
    cases h
    rfl

/-- The ring answers as a queue of `Size - 1` items does that holds these. -/
abbrev AtomicQueue.Behaves (q : AtomicQueue T Size) (items : List T) : Prop :=
  Agrees AtomicQueue.call (Fifo.step (Size.toNat - 1)) q items

theorem AtomicQueue.Behaves.push {items : List T} (h : q.Behaves items)
    (hroom : items.length ≠ Size.toNat - 1) (item : T) :
    ∃ q', q.push item = .ok (true, q') ∧ q'.Behaves (items ++ [item]) := by
  obtain ⟨q', hcall, hq'⟩ := h.after (.push item)
  rw [Fifo.step, if_neg hroom] at hcall hq'
  exact ⟨q', AtomicQueue.push_of_call hcall, hq'⟩

/-- As long as the queue has room, a ring that answers alike takes what it is given. The induction
    is on the number of items, each of which is taken because the answer has to be that of the
    queue. -/
theorem AtomicQueue.Behaves.filled [Inhabited T]
    (h : (AtomicQueue.new : AtomicQueue T Size).Behaves []) {n : Nat} (hn : n < 2 ^ 32)
    (hroom : n ≤ Size.toNat - 1) :
    ∃ q : AtomicQueue T Size, q.Filled n ∧ q.Behaves (List.replicate n default) := by
  induction n with
  | zero => exact ⟨.new, ⟨rfl, rfl⟩, h⟩
  | succ n ih =>
    obtain ⟨q, hfilled, hq⟩ := ih (by omega) (by omega)
    have hlength : (List.replicate n (default : T)).length = n := List.length_replicate
    obtain ⟨q', hpush, hq'⟩ := hq.push (by omega) default
    rw [← List.replicate_succ'] at hq'
    exact ⟨q', (hfilled.accepted (by omega) hpush).2, hq'⟩

theorem AtomicQueue.Filled.push {n : Nat} (h : q.Filled n) (hsize : 2 ^ 31 < Size.toNat)
    (hn : n < 2 ^ 31) (item : T) : ∃ q', q.push item = .ok (true, q') ∧ q'.Filled (n + 1) := by
  have htail : (loadIndex q.tail).toNat = n := by
    rw [h.toNat_tail (by omega), if_pos hn]
  have hroom : (loadIndex q.tail + 1) % Size ≠ loadIndex q.head := by
    intro hfull
    have hnext : ((loadIndex q.tail + 1) % Size).toNat = ((loadIndex q.tail).toNat + 1) %
        Size.toNat :=
      toNat_next (by omega)
    rw [hfull, htail, h.head, Nat.mod_eq_of_lt (by omega)] at hnext
    cases hnext
  have hslot : (loadIndex q.tail).toNat < Size.toNat := by omega
  have hpush : ∃ q', q.push item = .ok (true, q') := by
    unfold AtomicQueue.push
    dsimp only
    rw [if_neg hroom, dif_pos hslot]
    exact ⟨_, rfl⟩
  obtain ⟨q', hpush⟩ := hpush
  exact ⟨q', hpush, (h.accepted (by omega) hpush).2⟩

/-- One slot more than an `int` has indices for: the last of them is read back as
    2^64 - 2^31. -/
theorem AtomicQueue.Filled.push_far {q : AtomicQueue T 2147483649} (h : q.Filled (2 ^ 31))
    (item : T) : q.push item = .error .outOfBounds := by
  have htail : loadIndex q.tail = 18446744071562067968 := by
    apply UInt64.toNat_inj.mp
    rw [h.toNat_tail (by decide)]
    rfl
  have hroom : ((18446744071562067968 : UInt64) + 1) % 2147483649 ≠ loadIndex 0 := by decide
  have hslot : ¬(18446744071562067968 : UInt64).toNat < (2147483649 : UInt64).toNat := by decide
  unfold AtomicQueue.push
  dsimp only
  rw [htail, h.head, if_neg hroom, dif_neg hslot]

/-- A ring that behaves has at most 2^31 slots. There are two cases, as a ring with one slot more is
    full after 2^31 items and should refuse, while a longer one should take another. -/
theorem AtomicQueue.Behaves.size_le [Inhabited T]
    (h : (AtomicQueue.new : AtomicQueue T Size).Behaves []) : Size.toNat ≤ 2 ^ 31 := by
  by_contra hsize
  obtain ⟨q, hfilled, hq⟩ := h.filled (by decide : 2 ^ 31 < 2 ^ 32) (by omega)
  have hlength : (List.replicate (2 ^ 31) (default : T)).length = 2 ^ 31 := List.length_replicate
  by_cases hfull : Size.toNat = 2 ^ 31 + 1
  · -- the ring is full and should say so
    obtain rfl : Size = 2147483649 := UInt64.toNat_inj.mp hfull
    obtain ⟨q', hcall, -⟩ := hq.after (.push default)
    rw [Fifo.step, if_pos (hlength.trans (by decide))] at hcall
    have hpush := AtomicQueue.push_of_call hcall
    rw [hfilled.push_far] at hpush
    cases hpush
  · obtain ⟨q', hpush, -⟩ := hq.push (by omega) default
    have hfar := (hfilled.accepted (by decide) hpush).1
    rw [hfilled.toNat_tail (by decide), if_neg (by decide)] at hfar
    -- an array of that size is out of reach of any index after 2^32 - 1 items
    obtain ⟨q, hfilled, hq⟩ := h.filled (by decide : 2 ^ 32 - 1 < 2 ^ 32) (by omega)
    have hlength : (List.replicate (2 ^ 32 - 1) (default : T)).length = 2 ^ 32 - 1 :=
      List.length_replicate
    obtain ⟨q', hpush, -⟩ := hq.push (by omega) default
    have hlast := (hfilled.accepted (by decide) hpush).1
    have hlarge : Size.toNat < 2 ^ 64 := Size.toNat_lt
    rw [hfilled.toNat_tail (by decide), if_neg (by decide)] at hlast
    omega

/-- **The ring is a bounded first-in first-out queue**, for every sequence of calls, exactly as
    long as an `int` can hold the indices of its buffer. -/
theorem ring_is_bounded_fifo [Inhabited T] (hsize : 2 ≤ Size.toNat) :
    (∀ calls, answers AtomicQueue.call (AtomicQueue.new : AtomicQueue T Size) calls
      = .ok (outputs (Fifo.step (Size.toNat - 1)) [] calls)) ↔ Size.toNat ≤ 2 ^ 31 := by
  constructor
  · intro h
    exact AtomicQueue.Behaves.size_le h
  · intro hfits
    exact Agrees.of_simulation (fun _ _ h call => AtomicQueue.Holding.call h hfits call)
      (AtomicQueue.new_holding hsize)

end

/-- The ring of the message queue, with two messages that go through it. -/
theorem ring_of_messages :
    answers AtomicQueue.call (AtomicQueue.new : AtomicQueue OutgoingMessage 4096)
      [.push ⟨bytes "hi"⟩, .push ⟨bytes "yo"⟩, .pop, .pop, .pop]
      = .ok [.pushed true, .pushed true, .popped (some ⟨bytes "hi"⟩), .popped (some ⟨bytes "yo"⟩),
          .popped none] :=
  (ring_is_bounded_fifo (by decide)).mpr (by decide) _

/-- Item after item, up to the one that is written past the end. The proof counts, since a run of
    that length cannot be computed. -/
theorem answers_push_far {T : Type} (item : T) (n : Nat) {m : Nat} (hmn : m + n = 2 ^ 31)
    {q : AtomicQueue T 2147483649} (h : q.Filled m) :
    answers AtomicQueue.call q (List.replicate (n + 1) (.push item)) = .error .outOfBounds := by
  induction n generalizing m q with
  | zero =>
    obtain rfl : m = 2 ^ 31 := hmn
    have hcall : q.call (.push item) = .error .outOfBounds := by
      show (q.push item).map _ = _
      rw [h.push_far]
      rfl
    rw [List.replicate_succ, answers, hcall]
  | succ n ih =>
    obtain ⟨q', hpush, hq'⟩ := h.push (by decide) (by omega) item
    rw [List.replicate_succ, answers_cons (AtomicQueue.call_push hpush), ih (by omega) hq']
    rfl

/-- A ring of 2^31 + 1 slots is full after 2^31 items and should refuse the next. It writes it
    past the end. -/
theorem long_ring_out_of_bounds :
    answers AtomicQueue.call (AtomicQueue.new : AtomicQueue UInt8 2147483649)
      (List.replicate (2 ^ 31 + 1) (.push 0)) = .error .outOfBounds :=
  answers_push_far 0 (2 ^ 31) (Nat.zero_add _) ⟨rfl, rfl⟩

end Messenger
