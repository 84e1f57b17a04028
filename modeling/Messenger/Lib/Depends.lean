import Messenger.Lib.Action

/-!
# What a computation depends on

A computation depends only on a part `g` of its state if from two states that agree there it ends
alike: with the same value or failure, in states that agree there again (`DependsOn`). `EndAlike`
is that for two runs, so that a proof can follow two computations side by side, with one rule for
each way a computation is put together.

`Keeps` says that a computation does not write the rest of a state, and this says that it does not
read it. The two are independent: a computation may copy what it must not look at, and it may
look at what it leaves alone.
-/

set_option autoImplicit false

namespace Messenger.Lib

variable {ε σ τ α β : Type}

/-- The two runs end in the same way, as far as `g` sees: both return, with the same value, or both
    fail, in the same way. -/
inductive EndAlike (g : σ → τ) : EStateM.Result ε σ α → EStateM.Result ε σ α → Prop
  | ok {a : α} {s t : σ} (h : g s = g t) : EndAlike g (.ok a s) (.ok a t)
  | error {e : ε} {s t : σ} (h : g s = g t) : EndAlike g (.error e s) (.error e t)

/-- Whatever `g` does not see makes no difference to how the computation ends, nor to what it leaves
    in the part that `g` does see. -/
def DependsOn (g : σ → τ) (x : EStateM ε σ α) : Prop :=
  ∀ s t, g s = g t → EndAlike g (x s) (x t)

variable {g : σ → τ} {x y : EStateM ε σ α} {f k : α → EStateM ε σ β} {s t : σ}

theorem EndAlike.finalState (h : EndAlike g (x s) (y t)) :
    g (Lib.finalState x s) = g (Lib.finalState y t) := by
  unfold Lib.finalState
  generalize x s = rs at h
  generalize y t = rt at h
  cases h with
  | ok h => exact h
  | error h => exact h

/-- Sequencing of two pairs of runs. The continuations may differ (`f` and `k`), which is what lets
    two computations be compared that are not the same program. -/
theorem EndAlike.bind (hx : EndAlike g (x s) (y t))
    (hf : ∀ a s' t', g s' = g t' → EndAlike g (f a s') (k a t')) :
    EndAlike g ((x >>= f) s) ((y >>= k) t) := by
  generalize hs : x s = rs at hx
  generalize ht : y t = rt at hx
  -- both parts return, and go on from states that agree, or both have failed already
  cases hx with
  | ok h =>
    rw [bind_ok hs, bind_ok ht]
    exact hf _ _ _ h
  | error h =>
    rw [bind_error hs, bind_error ht]
    exact .error h

theorem EndAlike.get_bind {f k : σ → EStateM ε σ β} (h : EndAlike g (f s s) (k t t)) :
    EndAlike g ((get >>= f) s) ((get >>= k) t) := h

theorem EndAlike.set_bind {f k : PUnit → EStateM ε σ β} {s' t' : σ}
    (h : EndAlike g (f ⟨⟩ s') (k ⟨⟩ t')) : EndAlike g ((set s' >>= f) s) ((set t' >>= k) t) := h

theorem DependsOn.pure (a : α) : DependsOn g (Pure.pure a : EStateM ε σ α) := fun _ _ h => .ok h

theorem DependsOn.throw (e : ε) : DependsOn g (MonadExcept.throw e : EStateM ε σ α) :=
  fun _ _ h => .error h

/-- A change depends on what `g` sees if what `g` sees of the result does. -/
theorem DependsOn.modify {u : σ → σ} (hu : ∀ s t, g s = g t → g (u s) = g (u t)) :
    DependsOn g (modify u : EStateM ε σ PUnit) := fun s t h => .ok (hu s t h)

theorem DependsOn.bind (hx : DependsOn g x) (hf : ∀ a, DependsOn g (f a)) :
    DependsOn g (x >>= f) := fun s t h => (hx s t h).bind fun a => hf a

theorem DependsOn.forM {f : α → EStateM ε σ PUnit} (hf : ∀ a, DependsOn g (f a)) :
    ∀ l : List α, DependsOn g (l.forM f)
  | [] => .pure _
  | a :: l => .bind (hf a) fun _ => DependsOn.forM hf l

end Messenger.Lib
