import Mathlib.Data.List.Basic

/-!
# Machines that answer calls, and the bounded first-in first-out queue

A machine takes a call, answers it and has a new state. One machine implements another if
the two answer alike from related states (`Agrees.of_simulation`); an implementation may
also fail, and then it has no answer.

`Fifo.step` is the queue that keeps what it is given in order, up to a capacity. A queue between
two threads may refuse a call that this one would take, because one thread sees late what the
other has done; `Fifo.MayRefuse` allows for that.
-/

set_option autoImplicit false

namespace Messenger.Lib

section

variable {σ τ C A ε : Type}

/-- The answers of a machine that cannot fail. -/
def outputs (spec : τ → C → A × τ) : τ → List C → List A
  | _, [] => []
  | t, call :: calls => (spec t call).1 :: outputs spec (spec t call).2 calls

/-- The answers of a machine that may fail. A failure is all that is seen of the run. -/
def answers (step : σ → C → Except ε (A × σ)) : σ → List C → Except ε (List A)
  | _, [] => .ok []
  | s, call :: calls =>
    match step s call with
    | .error e => .error e
    | .ok out =>
      match answers step out.2 calls with
      | .error e => .error e
      | .ok rest => .ok (out.1 :: rest)

theorem answers_cons {step : σ → C → Except ε (A × σ)} {s s' : σ} {call : C} {a : A}
    (h : step s call = .ok (a, s')) (calls : List C) :
    answers step s (call :: calls) = (answers step s' calls).map (a :: ·) := by
  rw [answers, h]
  dsimp only
  cases answers step s' calls <;> rfl

/-- From these states on the two machines answer alike. Only answers are compared, so the states of
    the two may be of any kind; that the implementation does not fail is part of it. -/
def Agrees (step : σ → C → Except ε (A × σ)) (spec : τ → C → A × τ) (s : σ) (t : τ) : Prop :=
  ∀ calls, answers step s calls = .ok (outputs spec t calls)

variable {step : σ → C → Except ε (A × σ)} {spec : τ → C → A × τ}

/-- **Simulation**: what one call keeps in step, every run keeps in step. The relation `R` is the
    coupling invariant, and the induction is on the calls. -/
theorem Agrees.of_simulation {R : σ → τ → Prop}
    (hstep : ∀ s t, R s t → ∀ call, ∃ s', step s call = .ok ((spec t call).1, s') ∧
      R s' (spec t call).2)
    {s : σ} {t : τ} (h : R s t) : Agrees step spec s t := by
  intro calls
  induction calls generalizing s t with
  | nil => rfl
  | cons call calls ih =>
    obtain ⟨s', hcall, hrel⟩ := hstep s t h call
    rw [answers_cons hcall, ih hrel]
    rfl

/-- And the other way: machines that answer alike still do so after a call. So `Agrees` is itself a
    relation that calls keep, the largest one. -/
theorem Agrees.after {s : σ} {t : τ} (h : Agrees step spec s t) (call : C) :
    ∃ s', step s call = .ok ((spec t call).1, s') ∧ Agrees step spec s' (spec t call).2 := by
  -- a run of one call shows that the call does not fail
  have hone := h [call]
  cases hcall : step s call with
  | error e =>
    rw [answers, hcall] at hone
    cases hone
  | ok out =>
    obtain ⟨a, s'⟩ := out
    -- longer runs begin with the same answer, which can be taken off the front
    have hrun : ∀ calls, (answers step s' calls).map (a :: ·)
        = .ok ((spec t call).1 :: outputs spec (spec t call).2 calls) := by
      intro calls
      rw [← answers_cons hcall]
      exact h (call :: calls)
    have hanswer : a = (spec t call).1 :=
      (List.cons.inj (Except.ok.inj (hrun []))).1
    refine ⟨s', by rw [hanswer], ?_⟩
    intro calls
    have hrest := hrun calls
    cases hcalls : answers step s' calls with
    | error e =>
      rw [hcalls] at hrest
      cases hrest
    | ok rest =>
      rw [hcalls] at hrest
      exact congrArg Except.ok (List.cons.inj (Except.ok.inj hrest)).2

end

/-! ## The bounded queue -/

variable {T : Type}

/-- What a client asks of a queue. -/
inductive QueueCall (T : Type)
  | push (item : T)
  | pop
  deriving DecidableEq, Repr

/-- What the queue answers: whether it had room, or the item that is out, if there was one. -/
inductive QueueAnswer (T : Type)
  | pushed (accepted : Bool)
  | popped (item : Option T)
  deriving DecidableEq, Repr

/-- First in, first out, at most `capacity` items. A push to a full queue is refused and changes
    nothing, and so is a pop from an empty one. -/
def Fifo.step (capacity : Nat) (items : List T) : QueueCall T → QueueAnswer T × List T
  | .push item =>
    if items.length = capacity then (.pushed false, items) else (.pushed true, items ++ [item])
  | .pop => (.popped items.head?, items.tail)

/-- A call and its answer, in a history. -/
abbrev QueueEntry (T : Type) := QueueCall T × QueueAnswer T

namespace Fifo

/-- The call is answered by the queue. -/
def Answers (capacity : Nat) (items : List T) (entry : QueueEntry T) (items' : List T) : Prop :=
  Fifo.step capacity items entry.1 = (entry.2, items')

/-- Nothing goes in or comes out. -/
def Refused : QueueEntry T → Prop
  | (.push _, .pushed false) => True
  | (.pop, .popped none) => True
  | _ => False

/-- The call is answered by the queue, or it is refused and the queue stays as it is. A refusal that
    is not called for loses nothing: the item is still with the one that tried to push it, or still
    in the queue. -/
def MayRefuse (capacity : Nat) (items : List T) (entry : QueueEntry T) (items' : List T) : Prop :=
  Answers capacity items entry items' ∨ Refused entry ∧ items' = items

/-- What came out with this call. -/
def taken : QueueEntry T → List T
  | (.pop, .popped (some item)) => [item]
  | _ => []

end Fifo

end Messenger.Lib
