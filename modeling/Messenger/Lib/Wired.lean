import Mathlib.Data.List.Induction

/-!
# Processes that share a wire

Each process has a state of its own and handles events, one process at a time and in any order.
An event may read a packet; handling it writes packets. The wire keeps everything that has been
written, and whatever is on it may be read by any process, at any time and any number of times. So
packets may be lost, repeated, reordered and delivered to the wrong process, but not made up.

What holds of everything that is written holds of everything that is read
(`Wired.run_invariant`): it is enough that each process, as long as it reads good packets, keeps
its own invariant and writes good packets. Both may depend on what has happened so far, if they
stay true when more happens.

A process knows of the others only what it reads. So what some of them do among themselves, they
also do while others are at work (`Wired.run_filter`).
-/

set_option autoImplicit false

namespace Messenger.Lib

variable {P σ ε μ : Type}

/-- The processes, and everything that has been written to the wire so far. Nothing is ever taken
    off it, which makes losing, repeating and reordering packets a matter of what is read. -/
structure Wired (P σ μ : Type) where
  process : P → σ
  wire : List μ := []

/-- How a process handles its events. All processes handle them in the same way; what tells them
    apart is their state. -/
structure Handling (σ ε μ : Type) where
  -- The packet that an event reads.
  reads : ε → Option μ
  -- The state after an event, and what is written.
  handle : σ → ε → σ × List μ

namespace Wired

variable [DecidableEq P] [DecidableEq μ] (h : Handling σ ε μ)

/-- An event of one process. With nothing on the wire that it could read, nothing happens. -/
def step (s : Wired P σ μ) (a : P × ε) : Wired P σ μ :=
  if ∀ m ∈ h.reads a.2, m ∈ s.wire then {
    process := Function.update s.process a.1 (h.handle (s.process a.1) a.2).1
    wire := s.wire ++ (h.handle (s.process a.1) a.2).2 }
  else s

/-- One event after the other. -/
def run (s : Wired P σ μ) (events : List (P × ε)) : Wired P σ μ := events.foldl (step h) s

theorem run_append (s : Wired P σ μ) (before events : List (P × ε)) :
    s.run h (before ++ events) = (s.run h before).run h events := List.foldl_append

variable {h} {s : Wired P σ μ} {p : P} {e : ε}

theorem step_of_readable (hreads : ∀ m ∈ h.reads e, m ∈ s.wire) :
    s.step h (p, e) = {
      process := Function.update s.process p (h.handle (s.process p) e).1
      wire := s.wire ++ (h.handle (s.process p) e).2 } := if_pos hreads

/-- Two processes, of which one handles an event. This is what a walk through a given exchange needs
    at each of its messages. -/
theorem step_handles {q : P} {t t' u : σ} {written : List μ} (hne : q ≠ p) (hp : s.process p = t)
    (hq : s.process q = u) (hreads : ∀ m ∈ h.reads e, m ∈ s.wire)
    (hhandle : h.handle t e = (t', written)) :
    (s.step h (p, e)).process p = t' ∧ (s.step h (p, e)).process q = u ∧
      (s.step h (p, e)).wire = s.wire ++ written := by
  rw [step_of_readable hreads, hp, hhandle]
  simp [Function.update_of_ne hne, hq]

/-- `I` holds of every process and `G` of every packet. -/
structure Holds (I : P → σ → Prop) (G : μ → Prop) (s : Wired P σ μ) : Prop where
  process : ∀ p, I p (s.process p)
  wire : ∀ m ∈ s.wire, G m

/-- One event. `I'` and `G'` are what holds after it; they may say more than `I` and `G`, as the
    event may have added to what has happened, so all other processes and packets have to be taken
    from the one to the other. -/
theorem Holds.step {I I' : P → σ → Prop} {G G' : μ → Prop} (hs : s.Holds I G)
    (hI : ∀ q t, I q t → I' q t) (hG : ∀ m, G m → G' m)
    (hlocal : ∀ t, I p t → (∀ m ∈ h.reads e, G m) →
      I' p (h.handle t e).1 ∧ ∀ m ∈ (h.handle t e).2, G' m) :
    (s.step h (p, e)).Holds I' G' := by
  by_cases hreads : ∀ m ∈ h.reads e, m ∈ s.wire
  · obtain ⟨hstate, hwritten⟩ := hlocal (s.process p) (hs.process p)
      fun m hm => hs.wire m (hreads m hm)
    rw [step_of_readable hreads]
    constructor
    · intro q
      -- the process at work keeps its invariant by `hlocal`; the others are as they were
      by_cases hq : q = p
      · subst hq
        simpa using hstate
      · simpa [Function.update_of_ne hq] using hI q _ (hs.process q)
    · intro m hm
      rcases List.mem_append.mp hm with hold | hnew
      · exact hG m (hs.wire m hold)
      · exact hwritten m hnew
  · rw [show s.step h (p, e) = s from if_neg hreads]
    exact ⟨fun q => hI q _ (hs.process q), fun m hm => hG m (hs.wire m hm)⟩

/-- **Whatever a process can do with good packets, all of them together can do no more.** `I` and
    `G` may speak of the events so far, and the events may be restricted to some (`K`). -/
theorem run_invariant {I : List (P × ε) → P → σ → Prop} {G : List (P × ε) → μ → Prop}
    {K : P × ε → Prop} (hI : ∀ done a q t, I done q t → I (done ++ [a]) q t)
    (hG : ∀ done a m, G done m → G (done ++ [a]) m)
    (hlocal : ∀ done p e t, K (p, e) → I done p t → (∀ m ∈ h.reads e, G done m) →
      I (done ++ [(p, e)]) p (h.handle t e).1 ∧ ∀ m ∈ (h.handle t e).2, G (done ++ [(p, e)]) m)
    (hs : s.Holds (I []) (G [])) {events : List (P × ε)} (hK : ∀ a ∈ events, K a) :
    (s.run h events).Holds (I events) (G events) := by
  -- by induction from the end, where the events so far are a part of the run
  induction events using List.reverseRecOn with
  | nil => exact hs
  | append_singleton events a ih =>
    have hbefore := ih fun b hb => hK b (List.mem_append_left _ hb)
    rw [run_append]
    exact hbefore.step (hI events a) (hG events a) fun t =>
      hlocal events a.1 a.2 t (hK a (List.mem_append_right _ (List.mem_singleton_self a)))

/-! ## What the others do in between -/

variable (h) in
/-- What an event reads is on the wire by then. -/
def Readable (s : Wired P σ μ) : List (P × ε) → Prop
  | [] => True
  | a :: events => (∀ m ∈ h.reads a.2, m ∈ s.wire) ∧ (s.step h a).Readable events

/-- **Processes that read only from each other do not notice what others do**, even if these have
    been at work before.

    The two runs are followed side by side: on the left with all events, on the right with those of
    `A` only. The processes of `A` are the same in both, and the left wire has everything that is on
    the right one and perhaps more, so whatever can be read on the right can be read on the left. -/
theorem run_filter {A : P → Bool} {t : Wired P σ μ} {events : List (P × ε)}
    (hprocess : ∀ q, A q = true → s.process q = t.process q) (hwire : t.wire ⊆ s.wire)
    (hreadable : t.Readable h (events.filter fun a => A a.1)) :
    ∀ q, A q = true →
      (s.run h events).process q = (t.run h (events.filter fun a => A a.1)).process q := by
  induction events generalizing s t with
  | nil => exact hprocess
  | cons a events ih =>
    cases ha : A a.1 with
    | true =>
      rw [List.filter_cons_of_pos (by simpa using ha)] at hreadable ⊢
      obtain ⟨hreads, hrest⟩ := hreadable
      -- an event of one of them happens on both sides
      have hthere := step_of_readable (p := a.1) hreads
      have hhere := step_of_readable (p := a.1) fun m hm => hwire (hreads m hm)
      refine ih (s := s.step h a) (t := t.step h a) (fun q hq => ?_) ?_ hrest
      · rw [hhere, hthere]
        by_cases heq : q = a.1
        · subst heq
          simp [hprocess _ ha]
        · simp [Function.update_of_ne heq, hprocess q hq]
      · rw [hhere, hthere, hprocess _ ha]
        exact List.append_subset.mpr ⟨fun m hm => List.mem_append_left _ (hwire hm),
          List.subset_append_right ..⟩
    | false =>
      rw [List.filter_cons_of_neg (by simp [ha])] at hreadable ⊢
      -- an event of another process happens on the left only, and may add to the wire
      have hother : ∀ q, A q = true → q ≠ a.1 := by
        rintro q hq rfl
        simp [ha] at hq
      refine ih (s := s.step h a) (fun q hq => ?_) (fun m hm => ?_) hreadable
      · unfold step
        split
        · simp [Function.update_of_ne (hother q hq), hprocess q hq]
        · exact hprocess q hq
      · unfold step
        split
        · exact List.mem_append_left _ (hwire hm)
        · exact hwire hm

end Wired

end Messenger.Lib
