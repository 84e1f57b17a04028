import Mathlib.Data.List.Basic

/-!
# What holds all along a run

A run takes a state through a list of events. `Along step P s events` says that `P` holds of
every event together with the state it finds. Two such properties hold along the same runs if
they are the same wherever an invariant holds that good events keep (`Along.iff_of_invariant`).

An assumption about the environment has this form: not that the events are of some kind, but that
each is allowed where it happens. Defined by recursion on the events it can be unfolded together
with the run; `along_iff` is the form to state it in.
-/

set_option autoImplicit false

namespace Messenger.Lib

variable {σ ε : Type}

/-- `P` holds of every event and the state it finds. -/
def Along (step : σ → ε → σ) (P : σ → ε → Prop) : σ → List ε → Prop
  | _, [] => True
  | s, e :: events => P s e ∧ Along step P (step s e) events

variable {step : σ → ε → σ} {P Q : σ → ε → Prop}

/-- Every event of the run, with the state that the events before it lead to. -/
theorem along_iff {s : σ} {events : List ε} :
    Along step P s events ↔
      ∀ before e after, events = before ++ e :: after → P (before.foldl step s) e := by
  induction events generalizing s with
  | nil => simp [Along]
  | cons e events ih =>
    rw [Along, ih]
    constructor
    · rintro ⟨hfirst, hrest⟩ before e' after hsplit
      -- the first event finds `s` itself, every other one a state after the first event
      cases before with
      | nil =>
        rw [List.nil_append, List.cons.injEq] at hsplit
        rw [← hsplit.1]
        exact hfirst
      | cons b before =>
        rw [List.cons_append, List.cons.injEq] at hsplit
        rw [← hsplit.1]
        exact hrest before e' after hsplit.2
    · intro h
      refine ⟨h [] e events rfl, ?_⟩
      intro before e' after hsplit
      exact h (e :: before) e' after (congrArg (e :: ·) hsplit)

/-- Two conditions that mean the same where `I` holds mean the same all along a run that starts
    there. That `I` is kept has to be shown only for events that meet the condition, since the first
    one that does not decides the matter. -/
theorem Along.iff_of_invariant {I : σ → Prop} (hsame : ∀ s e, I s → (P s e ↔ Q s e))
    (hkeep : ∀ s e, I s → P s e → I (step s e)) {s : σ} (hs : I s) (events : List ε) :
    Along step P s events ↔ Along step Q s events := by
  induction events generalizing s with
  | nil => exact Iff.rfl
  | cons e events ih =>
    rw [Along, Along, ← hsame s e hs]
    exact and_congr_right fun hP => ih (hkeep s e hs hP)

end Messenger.Lib
