import Mathlib.Data.Nat.ModEq
import Messenger.Model.Queue

/-!
# The ring buffer is a bounded first-in first-out queue

`items` reads the slots from `head` to `tail`. A `push` appends to them unless only one
slot is left, a `pop` takes the first (`push_items`, `pop_items`). Slots less than a full
turn apart differ (`slot_inj`), and everything about the indices follows from that.

The queue of the source refuses by returning `false`, and `MessageQueue::push` does not look at
what it returns. So the run lemma is an equivalence: nothing is lost exactly if no text comes to a
queue with 4095 in it. One direction follows the calls; the other counts them, since a text that
has been dropped cannot come back later (`length_returnedFor_le`).
-/

set_option autoImplicit false

namespace Messenger

open Messenger.Lib

namespace LockFreeQueue

variable {T : Type} {Size : Nat}

/-- One slot is always free, so that a full ring and an empty one are different. -/
theorem count_lt (q : LockFreeQueue T Size) : q.count < Size := Nat.mod_lt _ q.head.pos

theorem slot_zero (q : LockFreeQueue T Size) : q.slot 0 = q.head :=
  Fin.ext (Nat.mod_eq_of_lt q.head.isLt)

theorem slot_count (q : LockFreeQueue T Size) : q.slot q.count = q.tail := by
  have hhead := q.head.isLt
  apply Fin.ext
  show (q.head.val + (q.tail.val + Size - q.head.val) % Size) % Size = q.tail.val
  rw [Nat.add_mod_mod,
    show q.head.val + (q.tail.val + Size - q.head.val) = q.tail.val + Size by omega,
    Nat.add_mod_right, Nat.mod_eq_of_lt q.tail.isLt]

theorem next_slot (q : LockFreeQueue T Size) (i : Nat) : next (q.slot i) = q.slot (i + 1) :=
  Fin.ext (Nat.mod_add_mod ..)

/-- Less than a full turn apart, slots differ. This is the only fact about the arithmetic of indices
    that the rest uses. -/
theorem slot_inj (q : LockFreeQueue T Size) {i j : Nat} (hi : i < Size) (hj : j < Size)
    (h : q.slot i = q.slot j) : i = j := by
  have hmod : (q.head.val + i) % Size = (q.head.val + j) % Size := congrArg Fin.val h
  have hij : i ≡ j [MOD Size] := Nat.ModEq.add_left_cancel' q.head.val hmod
  exact hij.eq_of_lt_of_lt hi hj

theorem count_of_slot (q : LockFreeQueue T Size) {n : Nat} (hn : n < Size)
    (h : q.slot n = q.tail) : q.count = n :=
  q.slot_inj q.count_lt hn (q.slot_count.trans h.symm)

theorem slot_ne_tail (q : LockFreeQueue T Size) {i : Nat} (hi : i < q.count) :
    q.slot i ≠ q.tail := by
  intro h
  have hcount := q.count_of_slot (hi.trans q.count_lt) h
  omega

theorem items_length (q : LockFreeQueue T Size) : q.items.length = q.count := by
  simp [items]

theorem new_items [Inhabited T] [NeZero Size] : (new : LockFreeQueue T Size).items = [] := by
  simp [items, count, new]

/-! ## Push -/

theorem next_tail_eq_head_iff (q : LockFreeQueue T Size) :
    next q.tail = q.head ↔ q.count + 1 = Size := by
  rw [← slot_count, next_slot]
  constructor
  · intro h
    by_contra hroom
    have hlt : q.count + 1 < Size := Nat.lt_of_le_of_ne q.count_lt hroom
    have hzero := q.slot_inj hlt q.head.pos (h.trans q.slot_zero.symm)
    omega
  · intro h
    apply Fin.ext
    show (q.head.val + (q.count + 1)) % Size = q.head.val
    rw [h, Nat.add_mod_right, Nat.mod_eq_of_lt q.head.isLt]

theorem push_accepted (q : LockFreeQueue T Size) (item : T) :
    (q.push item).1 = !decide (q.count + 1 = Size) := by
  unfold push
  by_cases hfull : q.count + 1 = Size
  · rw [if_pos (q.next_tail_eq_head_iff.mpr hfull), decide_eq_true hfull]
    rfl
  · rw [if_neg (mt q.next_tail_eq_head_iff.mp hfull), decide_eq_false hfull]
    rfl

/-- **A queue with one slot left refuses**, any other takes the item last. -/
theorem push_items (q : LockFreeQueue T Size) (item : T) :
    (q.push item).2.items = if q.count + 1 = Size then q.items else q.items ++ [item] := by
  unfold push
  by_cases hfull : q.count + 1 = Size
  · rw [if_pos hfull, if_pos (q.next_tail_eq_head_iff.mpr hfull)]
  · rw [if_neg hfull, if_neg (mt q.next_tail_eq_head_iff.mp hfull)]
    have hlt : q.count + 1 < Size := Nat.lt_of_le_of_ne q.count_lt hfull
    have htail : next q.tail = q.slot (q.count + 1) := by rw [← slot_count, next_slot]
    have hcount : count { q with
        buffer := Function.update q.buffer q.tail item, tail := next q.tail } = q.count + 1 :=
      count_of_slot _ hlt htail.symm
    unfold items
    rw [hcount, List.range_succ, List.map_append]
    congr 1
    · -- no item that was there is in the slot that is written
      apply List.map_congr_left
      intro i hi
      exact Function.update_of_ne (q.slot_ne_tail (List.mem_range.mp hi)) ..
    · show [Function.update q.buffer q.tail item (q.slot q.count)] = [item]
      rw [slot_count, Function.update_self]

/-! ## Pop -/

/-- The test of `pop` is whether there is anything. -/
theorem head_eq_tail_iff (q : LockFreeQueue T Size) : q.head = q.tail ↔ q.count = 0 := by
  constructor
  · intro h
    exact q.count_of_slot q.head.pos (q.slot_zero.trans h)
  · intro h
    rw [← slot_count, h, slot_zero]

theorem slot_next_head (q : LockFreeQueue T Size) (i : Nat) :
    slot { q with head := next q.head } i = q.slot (i + 1) := by
  apply Fin.ext
  show ((q.head.val + 1) % Size + i) % Size = (q.head.val + (i + 1)) % Size
  rw [Nat.mod_add_mod, Nat.add_assoc, Nat.add_comm 1 i]

/-- **The oldest item comes out**, and the others stay. The buffer is not written: the slot is left
    behind by `head`. -/
theorem pop_items (q : LockFreeQueue T Size) :
    q.pop.1 = q.items.head? ∧ q.pop.2.items = q.items.tail := by
  unfold pop
  cases hcount : q.count with
  | zero =>
    have hnil : q.items = [] := by simp [items, hcount]
    rw [if_pos (q.head_eq_tail_iff.mpr hcount), hnil]
    exact ⟨rfl, rfl⟩
  | succ n =>
    have hne : q.head ≠ q.tail := by
      intro h
      rw [q.head_eq_tail_iff.mp h] at hcount
      cases hcount
    have hlt := q.count_lt
    have hcount' : count { q with head := next q.head } = n := by
      apply count_of_slot _ (by omega)
      rw [slot_next_head, ← hcount, slot_count]
    have hitems : q.items = q.buffer q.head ::
        (List.range n).map fun i => q.buffer (q.slot (i + 1)) := by
      unfold items
      rw [hcount, List.range_succ_eq_map, List.map_cons, slot_zero, List.map_map]
      rfl
    rw [if_neg hne, hitems]
    refine ⟨rfl, ?_⟩
    unfold items
    rw [hcount']
    exact List.map_congr_left fun i _ => congrArg q.buffer (q.slot_next_head i)

end LockFreeQueue

/-! ## One queue for each recipient -/

namespace MessageQueue

variable (mq : MessageQueue) (u : Bytes)

theorem pending_insert (queue : LockFreeQueue OutgoingMessage 4096) :
    pending (mq.insert u queue) u = queue.items.map OutgoingMessage.bytes := by
  unfold pending
  rw [Table.insert_self]

theorem pending_length_lt : (mq.pending u).length < 4096 := by
  unfold pending
  cases mq u with
  | none => exact Nat.zero_lt_succ _
  | some queue =>
    rw [List.length_map, LockFreeQueue.items_length]
    exact queue.count_lt

/-- A text is queued last, or dropped when 4095 are waiting. For a recipient without a queue one is
    made first. -/
theorem pending_push_eq (text : Bytes) :
    (mq.push u text).pending u
      = if (mq.pending u).length = 4095 then mq.pending u else mq.pending u ++ [text] := by
  have hold : mq.pending u = ((mq u).getD .new).items.map OutgoingMessage.bytes := by
    unfold pending
    cases mq u with
    | none => rw [Option.getD_none, LockFreeQueue.new_items, List.map_nil]
    | some queue => rfl
  unfold push
  rw [pending_insert, LockFreeQueue.push_items, hold, List.length_map, LockFreeQueue.items_length]
  by_cases hfull : ((mq u).getD .new).count = 4095
  · rw [if_pos hfull, if_pos (congrArg Nat.succ hfull)]
  · rw [if_neg hfull, if_neg (mt Nat.succ.inj hfull), List.map_append]
    rfl

theorem pending_push (text : Bytes) :
    (mq.push u text).pending u = mq.pending u ∨
      (mq.push u text).pending u = mq.pending u ++ [text] := by
  rw [pending_push_eq]
  split
  · exact .inl rfl
  · exact .inr rfl

theorem findPending_nil (h : mq.pending u = []) :
    ∃ mq', mq.findPending u = (none, mq') ∧ mq'.pending u = [] := by
  unfold findPending
  cases hqueue : mq u with
  | none => exact ⟨mq, rfl, h⟩
  | some queue =>
    have hitems : queue.items = [] := by
      unfold pending at h
      rw [hqueue] at h
      exact List.map_eq_nil_iff.mp h
    obtain ⟨hfirst, hrest⟩ := queue.pop_items
    rw [hitems] at hfirst hrest
    refine ⟨mq.insert u queue.pop.2, Prod.ext hfirst rfl, ?_⟩
    rw [pending_insert, hrest]
    rfl

theorem findPending_cons {text : Bytes} {texts : List Bytes} (h : mq.pending u = text :: texts) :
    ∃ mq', mq.findPending u = (some ⟨text⟩, mq') ∧ mq'.pending u = texts := by
  unfold findPending
  cases hqueue : mq u with
  | none =>
    unfold pending at h
    rw [hqueue] at h
    cases h
  | some queue =>
    unfold pending at h
    rw [hqueue] at h
    obtain ⟨item, items, hitems, rfl, rfl⟩ := List.map_eq_cons_iff.mp h
    obtain ⟨hfirst, hrest⟩ := queue.pop_items
    rw [hitems] at hfirst hrest
    refine ⟨mq.insert u queue.pop.2, Prod.ext hfirst rfl, ?_⟩
    rw [pending_insert, hrest]
    rfl

theorem findPending_other {mq mq' : MessageQueue} {u other : Bytes} (hother : other ≠ u)
    {item : Option OutgoingMessage} (h : mq.findPending u = (item, mq')) :
    mq' other = mq other := by
  unfold findPending at h
  split at h
  · obtain rfl := (Prod.mk.inj h).2
    rfl
  · obtain rfl := (Prod.mk.inj h).2
    exact Table.insert_of_ne hother ..

theorem pending_push_other {other : Bytes} (hother : other ≠ u) (text : Bytes) :
    (mq.push u text).pending other = mq.pending other := by
  unfold pending push
  rw [Table.insert_of_ne hother]

/-! ## Runs -/

/-- The calls of a `MessageQueue`. -/
inductive Call
  | push (recipient text : Bytes)
  | findPending (recipient : Bytes)
  deriving DecidableEq, Repr

def call : Call → MessageQueue
  | .push recipient text => mq.push recipient text
  | .findPending recipient => (mq.findPending recipient).2

def afterCalls (calls : List Call) : MessageQueue := calls.foldl call mq

/-- The texts that are pushed for a recipient. -/
def pushedFor (r : Bytes) : List Call → List Bytes
  | [] => []
  | .push recipient text :: calls =>
    if recipient = r then text :: pushedFor r calls else pushedFor r calls
  | .findPending _ :: calls => pushedFor r calls

/-- The texts that `find_pending` returns for a recipient. -/
def returnedFor (r : Bytes) : MessageQueue → List Call → List Bytes
  | _, [] => []
  | mq, .push recipient text :: calls => returnedFor r (mq.push recipient text) calls
  | mq, .findPending recipient :: calls =>
    (if recipient = r then ((mq.findPending recipient).1.map OutgoingMessage.bytes).toList else [])
      ++ returnedFor r (mq.findPending recipient).2 calls

/-- Each text for the recipient comes when fewer than 4095 are waiting. -/
def HasRoom (r : Bytes) : MessageQueue → List Call → Prop
  | _, [] => True
  | mq, .push recipient text :: calls =>
    (recipient = r → (mq.pending r).length < 4095) ∧ HasRoom r (mq.push recipient text) calls
  | mq, .findPending recipient :: calls => HasRoom r (mq.findPending recipient).2 calls

theorem pending_findPending (r : Bytes) :
    mq.pending r = (if u = r then ((mq.findPending u).1.map OutgoingMessage.bytes).toList else [])
      ++ (mq.findPending u).2.pending r := by
  by_cases hr : u = r
  · subst hr
    rw [if_pos rfl]
    cases htexts : mq.pending u with
    | nil =>
      obtain ⟨mq', hfind, hrest⟩ := mq.findPending_nil u htexts
      rw [hfind, hrest]
      rfl
    | cons text texts =>
      obtain ⟨mq', hfind, hrest⟩ := mq.findPending_cons u htexts
      rw [hfind, hrest]
      rfl
  · have hsame : (mq.findPending u).2 r = mq r := findPending_other (Ne.symm hr) rfl
    rw [if_neg hr, List.nil_append]
    unfold pending
    rw [hsame]

/-- Nothing is returned or kept that has not been pushed. Counting is enough for the converse below:
    where one text has been refused, one is missing, and no other can take its place. -/
theorem length_returnedFor_le (r : Bytes) (calls : List Call) :
    (returnedFor r mq calls).length + ((mq.afterCalls calls).pending r).length
      ≤ (mq.pending r).length + (pushedFor r calls).length := by
  induction calls generalizing mq with
  | nil => simp [returnedFor, afterCalls, pushedFor]
  | cons c calls ih =>
    cases c with
    | push recipient text =>
      have hrest := ih (mq.push recipient text)
      show (returnedFor r (mq.push recipient text) calls).length
        + (((mq.push recipient text).afterCalls calls).pending r).length ≤ _
      rw [pushedFor]
      by_cases hr : recipient = r
      · -- a text that is refused counts as pushed and is nowhere else
        subst hr
        rw [pending_push_eq] at hrest
        rw [if_pos rfl, List.length_cons]
        split at hrest
        · omega
        · rw [List.length_append, List.length_singleton] at hrest
          omega
      · rw [pending_push_other mq recipient (Ne.symm hr)] at hrest
        rw [if_neg hr]
        exact hrest
    | findPending recipient =>
      have hrest := ih (mq.findPending recipient).2
      have htaken := congrArg List.length (mq.pending_findPending recipient r)
      rw [List.length_append] at htaken
      show (_ ++ returnedFor r (mq.findPending recipient).2 calls).length
        + (((mq.findPending recipient).2.afterCalls calls).pending r).length ≤ _
      rw [List.length_append, pushedFor]
      omega

/-- The texts that wait for the recipient and those that are pushed for it all come out, in their
    order, or are still waiting. The induction is on the calls, from any state; the case to look at
    is a push to a full queue, where the right side is false and the lengths contradict the left
    one. -/
theorem conserved_iff (r : Bytes) (calls : List Call) :
    returnedFor r mq calls ++ (mq.afterCalls calls).pending r = mq.pending r ++ pushedFor r calls ↔
      HasRoom r mq calls := by
  induction calls generalizing mq with
  | nil => simp [returnedFor, afterCalls, pushedFor, HasRoom]
  | cons c calls ih =>
    cases c with
    | push recipient text =>
      have hrest := ih (mq.push recipient text)
      show returnedFor r (mq.push recipient text) calls
        ++ ((mq.push recipient text).afterCalls calls).pending r = _ ↔ _ ∧ _
      rw [pushedFor]
      by_cases hr : recipient = r
      · subst hr
        have hlt := mq.pending_length_lt recipient
        rw [pending_push_eq] at hrest
        rw [if_pos rfl]
        by_cases hfull : (mq.pending recipient).length = 4095
        · -- the text is gone, and nothing makes up for it
          have hle := (mq.push recipient text).length_returnedFor_le recipient calls
          rw [pending_push_eq, if_pos hfull] at hle
          constructor
          · intro h
            have hlength := congrArg List.length h
            rw [List.length_append, List.length_append, List.length_cons] at hlength
            omega
          · intro h
            have hroom := h.1 rfl
            omega
        · rw [if_neg hfull, List.append_assoc] at hrest
          have hroom : (mq.pending recipient).length < 4095 := by omega
          exact hrest.trans (iff_and_self.mpr fun _ _ => hroom)
      · rw [pending_push_other mq recipient (Ne.symm hr)] at hrest
        rw [if_neg hr]
        exact hrest.trans (iff_and_self.mpr fun _ h => absurd h hr)
    | findPending recipient =>
      show (_ ++ returnedFor r (mq.findPending recipient).2 calls)
        ++ ((mq.findPending recipient).2.afterCalls calls).pending r = _ ↔ _
      rw [pushedFor, mq.pending_findPending recipient r, List.append_assoc, List.append_assoc,
        List.append_cancel_left_eq]
      exact ih (mq.findPending recipient).2

end MessageQueue

/-- **No text is dropped**, exactly if none comes when 4095 are waiting: `MessageQueue::push` does
    not look at the answer of the ring. -/
theorem queued_messages_conserved_iff (r : Bytes) (calls : List MessageQueue.Call) :
    MessageQueue.returnedFor r .empty calls ++ (MessageQueue.afterCalls .empty calls).pending r
        = MessageQueue.pushedFor r calls ↔
      MessageQueue.HasRoom r .empty calls :=
  MessageQueue.conserved_iff .empty r calls

/-- The example below is too large to be computed, so it is counted. -/
theorem pushedFor_replicate (r text : Bytes) (n : Nat) :
    MessageQueue.pushedFor r (List.replicate n (.push r text)) = List.replicate n text := by
  induction n with
  | zero => rfl
  | succ n ih =>
    rw [List.replicate_succ, MessageQueue.pushedFor, if_pos rfl, ih, List.replicate_succ]

theorem returnedFor_replicate (r text : Bytes) (mq : MessageQueue) (n : Nat) :
    MessageQueue.returnedFor r mq (List.replicate n (.push r text)) = [] := by
  induction n generalizing mq with
  | zero => rfl
  | succ n ih => rw [List.replicate_succ, MessageQueue.returnedFor, ih]

/-- 4096 texts for bob, none of them fetched: one is neither returned nor queued. -/
theorem queued_message_dropped :
    let calls := List.replicate 4096 (MessageQueue.Call.push (bytes "bob") (bytes "hi"))
    MessageQueue.returnedFor (bytes "bob") .empty calls
        ++ (MessageQueue.afterCalls .empty calls).pending (bytes "bob")
      ≠ MessageQueue.pushedFor (bytes "bob") calls := by
  intro calls h
  have hlt := (MessageQueue.afterCalls .empty calls).pending_length_lt (bytes "bob")
  have hlength := congrArg List.length h
  rw [returnedFor_replicate, pushedFor_replicate, List.nil_append, List.length_replicate] at hlength
  omega

end Messenger
