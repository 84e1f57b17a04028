import Messenger.Lib.Run
import Messenger.Model.Interest
import Messenger.Proof.Flush

/-!
# Bytes that wait, and whether anyone will be told to write them

`flush` returns `true` when its buffer has become empty, and also when `send` gives `-1` while
`errno` says would-block. Its callers take either for "done" and give up the write interest. The
stream transports subtract four from what the write returns, so that a write which fails comes
out as `-5`, and it is a write of three bytes that comes out as `-1`. The datagram transport
passes `-1` on: there every would-block leaves the buffer with no one to write it, until the next
message is queued.

`Stalls` names those answers; `queued_bytes_watched_iff` says that there are no others.
-/

set_option autoImplicit false

namespace Messenger

open Messenger.Lib

/-! ## One call of `flush` -/

theorem writer_flush_connection (c : ClientConnection) (interest : Bool) (a : WriteAnswer) :
    (c.writer interest).flush a
      = ((c.flush a.written).1, (c.flush a.written).2.1.writer interest) := rfl

theorem writer_flush_session (session : PeerSession) (interest : Bool) (a : WriteAnswer) :
    (session.writer interest).flush a
      = ((session.flush a.written).1, (session.flush a.written).2.1.writer interest) := rfl

/-- The answers after which `flush` says that it is done with a buffer that is not empty. On a
    stream the failed write itself is not among them: it comes out as `-5`, for which nothing
    tests. -/
def WriteAnswer.Stalls (a : WriteAnswer) : ITransport → Prop
  | .stream _ => a.written.accepted = some 3 ∧ a.written.wouldBlock
  | .udp =>
    (a.connected ∧ (a.written.accepted = none ∨ a.written.accepted = some 3)) ∧
      a.written.wouldBlock

/-- A stream transport gives `-1` for a write of three bytes only. -/
theorem streamSend_eq_neg_one_iff (data : Bytes) (r : SendResult) :
    (streamSend data r).1 = -1 ↔ r.accepted = some 3 := by
  have hlength := sendBuffer_length data
  unfold streamSend SendResult.count
  cases r.accepted with
  | none => simp
  | some n =>
    simp only [Option.some.injEq]
    omega

/-- A datagram transport gives `-1` for a write that failed, and for one of three bytes too. -/
theorem udpSend_eq_neg_one_iff (data : Bytes) (a : WriteAnswer) :
    (udpSend data a).1 = -1 ↔
      a.connected ∧ (a.written.accepted = none ∨ a.written.accepted = some 3) := by
  have hlength := sendBuffer_length data
  unfold udpSend SendResult.count
  cases a.connected with
  | false => simp
  | true =>
    cases a.written.accepted with
    | none => simp
    | some n =>
      simp only [if_true, Option.some.injEq, reduceCtorEq, false_or, true_and]
      split <;> omega

/-- What `flush` tests is the answer that stalls, whatever it offers: the buffer has no part in
    it. -/
theorem stalls_iff (transport : ITransport) (buffer : Bytes) (a : WriteAnswer) :
    a.Stalls transport ↔ (transport.send buffer a).1 = -1 ∧ a.written.wouldBlock := by
  cases transport with
  | stream t => rw [ITransport.send, send_eq, streamSend_eq_neg_one_iff, WriteAnswer.Stalls]
  | udp => rw [ITransport.send, udpSend_eq_neg_one_iff, WriteAnswer.Stalls]

/-- **One call.** Bytes are left when `flush` says that it is done exactly if the answer stalls. The
    other branch that says so has just found the buffer empty. -/
theorem flushBuffer_done_iff (transport : ITransport) {buffer : Bytes} (hne : buffer ≠ [])
    (a : WriteAnswer) :
    ((transport.flushBuffer buffer a).done = true → (transport.flushBuffer buffer a).buffer = []) ↔
      ¬a.Stalls transport := by
  have hnonempty : ¬buffer.isEmpty = true := by simp [hne]
  rw [stalls_iff transport buffer]
  unfold ITransport.flushBuffer
  rw [if_neg hnonempty]
  dsimp only
  split
  case isTrue hsent =>
    have hpos : ¬(transport.send buffer a).1 = -1 := by omega
    simp [hpos]
  case isFalse => simp [hne]

/-! ## Runs -/

/-- Bytes that wait are watched for. This is the invariant of a run, and an event that is not served
    breaks it. -/
def Writer.Watched (w : Writer) : Prop := w.buffer ≠ [] → w.writeInterest = true

/-- An event strands nothing: a `flush` that returns `true` has emptied the buffer, and what
    waits afterwards is watched for. -/
structure Writer.Served (w : Writer) (e : WriterEvent) : Prop where
  done_empty : ∀ a, e = .writable a → (w.flush a).1 = true → (w.flush a).2.buffer = []
  watched : (w.step e).Watched

/-- The condition on one event. -/
def Writer.Unstalled (w : Writer) (e : WriterEvent) : Prop :=
  ∀ a, e = .writable a → w.buffer ≠ [] → ¬a.Stalls w.transport

variable {w : Writer}

/-- With nothing to send there is no write, and the answer is right. -/
theorem flush_empty (hempty : w.buffer = []) (a : WriteAnswer) : w.flush a = (true, w) := by
  obtain ⟨transport, buffer, interest⟩ := w
  subst hempty
  rfl

theorem flush_writeInterest (w : Writer) (a : WriteAnswer) :
    (w.flush a).2.writeInterest = w.writeInterest := rfl

/-- The interest is given up only when `flush` says that it is done. -/
theorem onWritable_watched {a : WriteAnswer} (hwatched : w.Watched)
    (hdone : (w.flush a).1 = true → (w.flush a).2.buffer = []) : (w.onWritable a).Watched := by
  intro hleft
  unfold Writer.onWritable at hleft ⊢
  dsimp only at hleft ⊢
  by_cases h : (w.flush a).1 = true
  · rw [if_pos h] at hleft
    exact absurd (hdone h) hleft
  · rw [if_neg h, flush_writeInterest]
    -- only a buffer with something in it makes `flush` say no
    apply hwatched
    intro hempty
    rw [flush_empty hempty] at h
    exact h rfl

/-- **One event.** Queueing asks for the write interest, so it is always served. A write is served
    exactly if its answer does not stall, as far as there is anything to write. -/
theorem served_iff_unstalled (hwatched : w.Watched) (e : WriterEvent) :
    w.Served e ↔ w.Unstalled e := by
  cases e with
  | send data =>
    constructor
    · intro _ a ha
      cases ha
    · intro _
      refine ⟨fun a ha => (by cases ha), ?_⟩
      intro _
      rfl
  | writable a =>
    -- with nothing to send no call is made, and `true` is right
    have hcall : ((w.flush a).1 = true → (w.flush a).2.buffer = []) ↔
        (w.buffer ≠ [] → ¬a.Stalls w.transport) := by
      by_cases hempty : w.buffer = []
      · rw [flush_empty hempty]
        simp [hempty]
      · rw [← flushBuffer_done_iff w.transport hempty]
        exact ⟨fun h _ => h, fun h => h hempty⟩
    constructor
    · rintro ⟨hdone, -⟩ a' ha'
      cases ha'
      exact hcall.mp (hdone a rfl)
    · intro h
      have hdone := hcall.mpr (h a rfl)
      refine ⟨?_, onWritable_watched hwatched hdone⟩
      intro a' ha'
      cases ha'
      exact hdone

theorem step_transport (w : Writer) (e : WriterEvent) : (w.step e).transport = w.transport := by
  cases e with
  | send data => rfl
  | writable a =>
    unfold Writer.step Writer.onWritable
    dsimp only
    split
    · rfl
    · rfl

theorem run_transport (w : Writer) (events : List WriterEvent) :
    (w.run events).transport = w.transport := by
  induction events generalizing w with
  | nil => rfl
  | cons e events ih => exact (ih (w.step e)).trans (step_transport w e)

/-- A run in which no answer stalls strands nothing. By induction on the events, with `Watched` as
    the invariant. -/
theorem run_watched {events : List WriterEvent} (hwatched : w.Watched)
    (hanswers : ∀ a, .writable a ∈ events → ¬a.Stalls w.transport) : (w.run events).Watched := by
  induction events generalizing w with
  | nil => exact hwatched
  | cons e events ih =>
    have hserved := (served_iff_unstalled hwatched e).mpr fun a ha _ =>
      hanswers a (ha ▸ List.mem_cons_self)
    refine ih (w := w.step e) hserved.watched fun a ha => ?_
    rw [step_transport]
    exact hanswers a (List.mem_cons_of_mem e ha)

/-- **When queued bytes are never stranded.** Along a run from an empty buffer every event is
    served exactly if no write that has bytes to send gets an answer that stalls. -/
theorem queued_bytes_watched_iff (transport : ITransport) (interest : Bool)
    (events : List WriterEvent) :
    (∀ before e after, events = before ++ e :: after →
      (Writer.run ⟨transport, [], interest⟩ before).Served e) ↔
    ∀ before a after, events = before ++ .writable a :: after →
      (Writer.run ⟨transport, [], interest⟩ before).buffer ≠ [] → ¬a.Stalls transport := by
  have hstart : Writer.Watched ⟨transport, [], interest⟩ := fun h => absurd rfl h
  have hkeep (w : Writer) (e : WriterEvent) (_ : w.Watched) (h : w.Served e) :
      (Writer.step w e).Watched := h.watched
  have hrun := Along.iff_of_invariant (fun w e hwatched => served_iff_unstalled hwatched e) hkeep
    hstart events
  rw [along_iff, along_iff] at hrun
  -- the condition speaks of the transport at the start, which no event replaces
  refine hrun.trans ⟨?_, ?_⟩
  · intro h before a after hsplit
    have hevent := h before _ after hsplit a rfl
    rw [← Writer.run, run_transport] at hevent
    exact hevent
  · intro h before e after hsplit a ha
    subst ha
    rw [← Writer.run, run_transport]
    exact h before a after hsplit

/-- A datagram socket that would block: the message waits, and nobody will be told when it can
    be written. -/
theorem udp_would_block_strands_message :
    let queued := Writer.run ⟨.udp, [], false⟩ [.send (bytes "hi")]
    let blocked : WriteAnswer := { written := ⟨none, true⟩ }
    (queued.flush blocked).1 = true ∧
      (queued.step (.writable blocked)).buffer = bytes "\x00\x00\x00\x02hi" ∧
      (queued.step (.writable blocked)).writeInterest = false := by decide

-- On a stream it takes a write of three bytes, and an `errno` that an earlier call has left.
example :
    let w := Writer.run ⟨.stream (.tls {}), [], true⟩
      [.send (bytes "hi"), .writable { written := ⟨some 3, true⟩ }]
    w.buffer = bytes "\x00\x00\x00\x02hi" ∧ w.writeInterest = false := by decide

end Messenger
