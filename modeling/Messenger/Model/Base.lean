import Mathlib.Algebra.Ring.Nat
import Mathlib.Data.List.Basic
import Messenger.Lib.Action

/-!
# Bytes, and how a call can end

The program's `std::vector<uint8_t>` and `std::string` are both byte strings here.
`bytes` reads a string literal of the source as the bytes the compiler stores for it.

A C++ call that does not return has thrown, has run into undefined behaviour (an index past
the end of a vector), or has been ended together with the process by a signal. The three are
kept apart: a `catch` clause sees the first and never the others.
-/

set_option autoImplicit false

namespace Messenger

open Messenger.Lib

/-- The program has two types for byte strings and converts between them freely; here they are
    one. -/
abbrev Bytes := List UInt8

/-- The bytes of a string literal. -/
def bytes (s : String) : Bytes := s.toByteArray.data.toList

/-- The exceptions the program throws, all caught as `std::exception`. The text is kept because some
    of them tell two checks apart that throw in the same place. -/
inductive Exn
  | runtimeError (what : Bytes)
  | overflowError (what : Bytes)
  deriving DecidableEq, Repr

/-- How a call ends when it does not return. What is done with it differs: an exception goes up to
    the nearest `catch`, which may be none; undefined behaviour has no next state at all; and a
    signal takes the whole process with it. -/
inductive Failure
  | thrown (e : Exn)
  -- An access outside a vector: the language gives the call no meaning.
  | outOfBounds
  -- A signal that ends the process: `SIGPIPE`, at a write to a socket that has been shut down.
  -- Nothing in the program handles it.
  | killed
  deriving DecidableEq, Repr

/-- `throw std::runtime_error(what)`. -/
def runtimeError (what : String) : Failure := .thrown (.runtimeError (bytes what))

/-- `throw std::overflow_error(what)`. -/
def overflowError (what : String) : Failure := .thrown (.overflowError (bytes what))

/-- A failure that a `catch (std::exception &)` sees. A theorem that a call fails only like this
    says that it neither reads outside a vector nor gets the process killed. -/
def Failure.IsThrown : Failure → Prop
  | .thrown _ => True
  | .outOfBounds | .killed => False

theorem Failure.IsThrown.exn : ∀ {e : Failure}, e.IsThrown → ∃ x, e = .thrown x
  | .thrown x, _ => ⟨x, rfl⟩

theorem Failure.IsThrown.ne_outOfBounds {e : Failure} (h : e.IsThrown) : e ≠ .outOfBounds := by
  obtain ⟨x, rfl⟩ := h.exn
  exact fun heq => by cases heq

theorem isThrown_runtimeError (what : String) : (runtimeError what).IsThrown := trivial

theorem isThrown_overflowError (what : String) : (overflowError what).IsThrown := trivial

/-- `raw[i]`, which the language does not check. The source relies on checks made before, so every
    read here is one that a proof has to find the check for. -/
def byteAt (raw : Bytes) (i : Nat) : Except Failure UInt8 :=
  match raw[i]? with
  | some b => .ok b
  | none => .error .outOfBounds

/-- `std::vector<uint8_t>(raw.begin() + i, raw.begin() + i + n)`. An iterator past the end is
    already undefined, so the sum is compared and not clamped. -/
def slice (raw : Bytes) (i n : Nat) : Except Failure Bytes :=
  if i + n ≤ raw.length then .ok ((raw.drop i).take n) else .error .outOfBounds

/-! ## Calls that change a state

An exception does not undo what was done before it, so the state at the throw is the
state afterwards. -/

/-- A computation that may throw and has no other effect. -/
def liftExcept {σ α : Type} (x : Except Failure α) : EStateM Failure σ α :=
  match x with
  | .ok a => pure a
  | .error e => throw e

/-- `try { return x; } catch (std::exception &) { return b; }`. The state is the one at the throw:
    catching an exception does not roll back what was done before it. -/
def catchWith {σ α : Type} (b : α) (x : EStateM Failure σ α) : EStateM Failure σ α := fun s =>
  match x s with
  | .ok a s => .ok a s
  | .error (.thrown _) s => .ok b s
  | .error .outOfBounds s => .error .outOfBounds s
  | .error .killed s => .error .killed s

theorem catchWith_ok {σ α : Type} {x : EStateM Failure σ α} {s s' : σ} {a : α}
    (h : x s = .ok a s') (b : α) : catchWith b x s = .ok a s' := by
  unfold catchWith
  rw [h]

theorem catchWith_thrown {σ α : Type} {x : EStateM Failure σ α} {s s' : σ} {e : Exn}
    (h : x s = .error (.thrown e) s') (b : α) : catchWith b x s = .ok b s' := by
  unfold catchWith
  rw [h]

theorem finalState_catchWith {σ α : Type} (b : α) (x : EStateM Failure σ α) (s : σ) :
    finalState (catchWith b x) s = finalState x s := by
  unfold finalState catchWith
  cases x s with
  | ok a s' => rfl
  | error e s' => cases e <;> rfl

/-- Out of a `try` block come the failures that are not thrown. What was done before the throw
    stays, so the state is related as it was without the block. -/
theorem Lib.Respects.catchWith {σ α : Type} {R : σ → σ → Prop} {E E' : Failure → Prop}
    {x : EStateM Failure σ α} {s : σ} (h : Respects R E x s)
    (hE : ∀ e, E e → e.IsThrown ∨ E' e) (b : α) :
    Respects R E' (Messenger.catchWith b x) s := by
  refine ⟨?_, fun {e s'} he => ?_⟩
  · rw [finalState_catchWith]
    exact h.state
  · cases hx : x s with
    | ok a s₁ =>
      rw [catchWith_ok hx] at he
      cases he
    | error e₁ s₁ =>
      have hfails := hE e₁ (h.fails hx)
      unfold Messenger.catchWith at he
      rw [hx] at he
      cases e₁ with
      | thrown exn => cases he
      | outOfBounds =>
        cases he
        exact hfails.resolve_left id
      | killed =>
        cases he
        exact hfails.resolve_left id

theorem Lib.Keeps.liftExcept {σ α τ : Type} {g : σ → τ} (x : Except Failure α) :
    Keeps g (Messenger.liftExcept x : EStateM Failure σ α) := by
  cases x with
  | ok a => exact .pure a
  | error e => exact .throw e

/-! What a read gives, with the input split at the offset. -/

theorem byteAt_append (before rest : Bytes) (i : Nat) :
    byteAt (before ++ rest) (before.length + i) = byteAt rest i := by
  rw [byteAt, byteAt, List.getElem?_append_right (Nat.le_add_right _ _), Nat.add_sub_cancel_left]

@[simp] theorem byteAt_cons_zero (b : UInt8) (bs : Bytes) : byteAt (b :: bs) 0 = .ok b := rfl

theorem slice_append (before e t : Bytes) :
    slice (before ++ (e ++ t)) before.length e.length = .ok e := by
  simp [slice]

end Messenger
