import Messenger.Lib.Fifo

/-!
# Histories of calls that overlap

Where calls overlap, what can be compared with a machine that answers one call after the other
is the history: the calls in the order in which they were completed, each with its answer. The
machine is given by what it may do at one entry of the history, as a relation, so that it may have
a choice. It explains the history (`Explains`) if it can go through all entries in their order.

`explains_run` is the rule: a step that completes no call leaves the machine where it is, and one
that does takes it through that call.
-/

set_option autoImplicit false

namespace Messenger.Lib

variable {σ τ C A ε E : Type} {Spec : τ → C × A → τ → Prop}

/-- From `t₀` the machine can go through the history, and is at the last state after it. The history
    is taken from the front: its last entry is the call that was completed last, which is where a
    step of the program adds one. -/
inductive Explains (Spec : τ → C × A → τ → Prop) (t₀ : τ) : List (C × A) → τ → Prop
  | nil : Explains Spec t₀ [] t₀
  | complete {history : List (C × A)} {t t' : τ} {entry : C × A} :
      Explains Spec t₀ history t → Spec t entry t' → Explains Spec t₀ (history ++ [entry]) t'

theorem Explains.mono {Spec' : τ → C × A → τ → Prop} {t₀ t : τ} {history : List (C × A)}
    (h : Explains Spec t₀ history t) (hspec : ∀ t entry t', Spec t entry t' → Spec' t entry t') :
    Explains Spec' t₀ history t := by
  induction h with
  | nil => exact .nil
  | complete _ hentry ih => exact ih.complete (hspec _ _ _ hentry)

/-! A machine without a choice is a function, and its answers are its `outputs`. -/

section Function

variable {spec : τ → C → A × τ}

/-- Where the machine is after the calls. -/
def endState (spec : τ → C → A × τ) (t : τ) (calls : List C) : τ :=
  calls.foldl (fun t call => (spec t call).2) t

theorem outputs_append (t : τ) (before calls : List C) :
    outputs spec t (before ++ calls)
      = outputs spec t before ++ outputs spec (endState spec t before) calls := by
  induction before generalizing t with
  | nil => rfl
  | cons call before ih => exact congrArg ((spec t call).1 :: ·) (ih (spec t call).2)

/-- A machine without a choice is a function of the calls, so a history that it explains holds the
    answers it would have given, one call after the other. -/
theorem Explains.answers {t₀ t : τ} {history : List (C × A)}
    (h : Explains (fun t entry t' => spec t entry.1 = (entry.2, t')) t₀ history t) :
    outputs spec t₀ (history.map Prod.fst) = history.map Prod.snd ∧
      endState spec t₀ (history.map Prod.fst) = t := by
  induction h with
  | nil => exact ⟨rfl, rfl⟩
  | @complete history t t' entry _ hentry ih =>
    obtain ⟨hanswers, hstate⟩ := ih
    refine ⟨?_, ?_⟩
    · rw [List.map_append, List.map_append, outputs_append, hanswers, hstate]
      exact congrArg (history.map Prod.snd ++ [·.1]) hentry
    · rw [List.map_append, endState, List.foldl_append]
      show (spec (endState spec t₀ (history.map Prod.fst)) entry.1).2 = t'
      rw [hstate, hentry]

end Function

/-- What one step may do: it does not fail, and it completes no call or one that the machine may
    answer in the same way. The coupling `R` may be used by steps that complete nothing to move on
    in the middle of a call. -/
def Completes (Spec : τ → C × A → τ → Prop) (R : σ → τ → Prop) (history : σ → List (C × A))
    (s : σ) (t : τ) (after : Except E σ) : Prop :=
  ∃ s', after = .ok s' ∧
    (history s' = history s ∧ R s' t ∨
      ∃ entry t', history s' = history s ++ [entry] ∧ Spec t entry t' ∧ R s' t')

/-- **Every run is explained** if every step is. The induction is on the events, with the machine's
    state carried along: it moves only at the events that complete a call. -/
theorem explains_run {step : σ → ε → Except E σ} {history : σ → List (C × A)} {R : σ → τ → Prop}
    {events : List ε}
    (hstep : ∀ e ∈ events, ∀ s t, R s t → Completes Spec R history s t (step s e))
    {t₀ : τ} {s : σ} {t : τ} (hR : R s t) (h : Explains Spec t₀ (history s) t) :
    ∃ s' t', events.foldlM step s = .ok s' ∧ R s' t' ∧ Explains Spec t₀ (history s') t' := by
  induction events generalizing s t with
  | nil => exact ⟨s, t, rfl, hR, h⟩
  | cons e events ih =>
    have hrest := fun e' he' => hstep e' (List.mem_cons_of_mem e he')
    obtain ⟨s', hs', hdone⟩ := hstep e List.mem_cons_self s t hR
    rw [List.foldlM_cons, hs']
    -- no call was completed, or one more entry is at the end of the history
    rcases hdone with ⟨hsame, hR'⟩ | ⟨entry, t', hone, hentry, hR'⟩
    · exact ih hrest hR' (hsame ▸ h)
    · exact ih hrest hR' (hone ▸ h.complete hentry)

end Messenger.Lib
