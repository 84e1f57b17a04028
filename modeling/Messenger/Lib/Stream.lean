import Mathlib.Data.List.Basic

/-!
# Frames over a stream that arrives in pieces

A sender concatenates frames; a receiver sees the stream in pieces that need not end
where a frame ends. It keeps what it cannot use yet in a buffer and, after each piece,
takes complete frames off the front until there is none.

`next` is the receiver's test for a complete frame at the front of a buffer (a test that
may itself fail), `spell` the sender's frame. `FrameDecoder next spell P` is what they owe
each other for the values that satisfy `P`; `Drains next` is the loop. `Received` is the
receiver's state after any part of the stream, described without the receiver: which values
are out, and that the buffer is what is left of the stream, short of the next frame. The loop
keeps it (`Received.feed`), so how the stream was cut does not matter, and at the end
of the stream it says that everything arrived (`Received.complete`).
-/

set_option autoImplicit false

namespace Messenger.Lib

variable {τ ε α : Type}

/-- The loop "while there is a complete frame, take it off the front". As a relation it speaks only
    of runs of the loop that come to an end, and that do not fail; that there is one is what
    `FrameDecoder.drains` proves. -/
inductive Drains (next : List τ → Except ε (Option (α × List τ))) :
    List τ → List α → List τ → Prop
  | stop {buf : List τ} : next buf = .ok none → Drains next buf [] buf
  | step {buf rest final : List τ} {a : α} {as : List α} :
      next buf = .ok (some (a, rest)) → Drains next rest as final →
        Drains next buf (a :: as) final

/-- `next` finds a frame that is there, and does not find one that is not there yet. The second half
    is what a receiver that looks at incomplete input needs: on the beginning of a frame `next` must
    neither fail nor find something else. -/
structure FrameDecoder (next : List τ → Except ε (Option (α × List τ))) (spell : α → List τ)
    (P : α → Prop) : Prop where
  whole : ∀ {a : α}, P a → ∀ t, next (spell a ++ t) = .ok (some (a, t))
  short : ∀ {a : α} {s : List τ}, P a → s <+: spell a → s ≠ spell a → next s = .ok none
  empty : next [] = .ok none

/-- After the part `s` of the stream of `as`, the values `done` are out and `buf` is kept. The
    buffer is short of the next frame, whichever that is: this is what it means for the loop not to
    have stopped too early. After the last frame nothing is kept. -/
structure Received (spell : α → List τ) (as : List α) (s : List τ) (done : List α)
    (buf : List τ) : Prop where
  delivered : done <+: as
  split : s = done.flatMap spell ++ buf
  short : ∀ a, done ++ [a] <+: as → buf <+: spell a ∧ buf ≠ spell a
  last : done = as → buf = []

variable {next : List τ → Except ε (Option (α × List τ))} {spell : α → List τ} {P : α → Prop}

/-- Before anything has arrived. Frames must not be empty: an empty one would be complete
    already. -/
theorem Received.nil {as : List α} (hP : ∀ a ∈ as, spell a ≠ []) :
    Received spell as [] [] [] where
  delivered := List.nil_prefix
  split := rfl
  short a ha := by
    have hmem : a ∈ as := ha.subset (by simp)
    exact ⟨List.nil_prefix, fun h => hP a hmem h.symm⟩
  last _ := rfl

/-- The loop, started on any part of a stream, delivers what is complete. The induction is on the
    values still to come, with the part of the stream that has arrived of them as the buffer. -/
theorem FrameDecoder.drains (hd : FrameDecoder next spell P) {as : List α}
    (hP : ∀ a ∈ as, P a) {s : List τ} (hs : s <+: as.flatMap spell) :
    ∃ done buf, Drains next s done buf ∧ Received spell as s done buf := by
  induction as generalizing s with
  | nil =>
    have hnil : s = [] := List.prefix_nil.mp hs
    subst hnil
    exact ⟨[], [], .stop hd.empty, ⟨List.prefix_refl _, rfl, by simp, fun _ => rfl⟩⟩
  | cons a as ih =>
    have ha : P a := hP a List.mem_cons_self
    have hrest : ∀ b ∈ as, P b := fun b hb => hP b (List.mem_cons_of_mem a hb)
    rw [List.flatMap_cons] at hs
    by_cases hshort : s <+: spell a ∧ s ≠ spell a
    · -- The first frame is not complete: the loop stops at once.
      refine ⟨[], s, .stop (hd.short ha hshort.1 hshort.2), ?_, rfl, ?_, ?_⟩
      · exact List.nil_prefix
      · intro b hb
        obtain ⟨rfl, -⟩ := List.cons_prefix_cons.mp hb
        exact hshort
      · intro h
        cases h
    · -- The two are parts of one stream, so one begins the other.
      have hwhole : spell a <+: s := by
        rcases List.prefix_or_prefix_of_prefix hs (List.prefix_append _ _) with h | h
        · have heq : s = spell a := by
            by_contra hne
            exact hshort ⟨h, hne⟩
          exact heq ▸ List.prefix_refl _
        · exact h
      obtain ⟨s', rfl⟩ := hwhole
      obtain ⟨done, buf, hdrain, hrec⟩ := ih hrest ((List.prefix_append_right_inj _).mp hs)
      refine ⟨a :: done, buf, .step (hd.whole ha s') hdrain, ?_, ?_, ?_, ?_⟩
      · exact List.cons_prefix_cons.mpr ⟨rfl, hrec.delivered⟩
      · rw [hrec.split, List.flatMap_cons, List.append_assoc]
      · intro b hb
        exact hrec.short b (List.cons_prefix_cons.mp hb).2
      · intro h
        exact hrec.last (List.cons.inj h).2

/-- **One more piece.** The state after it is again the one `Received` describes. What the receiver
    has kept and the new piece together are a part of the stream of the values still to come, so the
    loop starts over from there and nothing has to be known about the pieces before. -/
theorem Received.feed (hd : FrameDecoder next spell P) {as : List α} (hP : ∀ a ∈ as, P a)
    {s c buf : List τ} {done : List α} (h : Received spell as s done buf)
    (hs : s ++ c <+: as.flatMap spell) :
    ∃ new buf', Drains next (buf ++ c) new buf' ∧
      Received spell as (s ++ c) (done ++ new) buf' := by
  -- the values that are out are a beginning; `todo` is the rest of them
  obtain ⟨todo, htodo⟩ := h.delivered
  subst htodo
  have hsplit := h.split
  subst hsplit
  -- what is out is taken off the front of both sides
  have hbuf : buf ++ c <+: todo.flatMap spell := by
    rw [List.flatMap_append, List.append_assoc] at hs
    exact (List.prefix_append_right_inj _).mp hs
  have hPtodo : ∀ a ∈ todo, P a := fun a ha => hP a (List.mem_append_right done ha)
  obtain ⟨new, buf', hdrain, hrec⟩ := hd.drains hPtodo hbuf
  refine ⟨new, buf', hdrain, ?_, ?_, ?_, ?_⟩
  · exact (List.prefix_append_right_inj done).mpr hrec.delivered
  · rw [List.append_assoc, hrec.split, List.flatMap_append, List.append_assoc]
  · intro a ha
    rw [List.append_assoc] at ha
    exact hrec.short a ((List.prefix_append_right_inj done).mp ha)
  · intro heq
    exact hrec.last (List.append_cancel_left heq)

/-- **At the end of the stream everything is out.** -/
theorem Received.complete {as : List α} {buf : List τ} {done : List α}
    (h : Received spell as (as.flatMap spell) done buf) : done = as ∧ buf = [] := by
  obtain ⟨todo, htodo⟩ := h.delivered
  cases todo with
  | nil =>
    have hdone : done = as := by simpa using htodo
    exact ⟨hdone, h.last hdone⟩
  | cons a todo =>
    -- The buffer would hold all of the next frame and yet be shorter than it.
    subst htodo
    obtain ⟨hpre, hne⟩ := h.short a (by simp)
    have hsplit := h.split
    rw [List.flatMap_append, List.flatMap_cons] at hsplit
    have hbuf : spell a ++ todo.flatMap spell = buf := List.append_cancel_left hsplit
    have hle : spell a <+: buf := ⟨_, hbuf⟩
    exact absurd (hpre.eq_of_length_le hle.length_le) hne

end Messenger.Lib
