import Mathlib.Data.List.Basic

/-!
# Interleavings

Two programs that share a state run as one list of operations, each program's own in its
order. What one of them is about can be followed through any interleaving if the other
leaves it alone: `Interleaving.invariant` is the rule for that.
-/

set_option autoImplicit false

namespace Messenger.Lib

variable {α σ : Type}

/-- The last list is made of the two others, each in its own order. -/
inductive Interleaving : List α → List α → List α → Prop
  | nil : Interleaving [] [] []
  | left {x : α} {xs ys zs : List α} : Interleaving xs ys zs → Interleaving (x :: xs) ys (x :: zs)
  | right {y : α} {xs ys zs : List α} : Interleaving xs ys zs → Interleaving xs (y :: ys) (y :: zs)

theorem Interleaving.symm {xs ys zs : List α} (h : Interleaving xs ys zs) :
    Interleaving ys xs zs := by
  induction h with
  | nil => exact .nil
  | left _ ih => exact ih.right
  | right _ ih => exact ih.left

theorem Interleaving.mem_iff {xs ys zs : List α} (h : Interleaving xs ys zs) (a : α) :
    a ∈ zs ↔ a ∈ xs ∨ a ∈ ys := by
  induction h with
  | nil => simp
  | left _ ih => simp only [List.mem_cons, ih, or_assoc]
  | right _ ih => simp only [List.mem_cons, ih, or_left_comm]

/-- `P rest s` says where the first program is when `rest` is still to come. Its own operations take
    it on, and those of the other keep it where it is. The first program is followed by what it has
    still to do, so a step of it may use that the rest is a suffix of the whole program. -/
theorem Interleaving.invariant {step : σ → α → σ} {P : List α → σ → Prop} {xs ys zs : List α}
    (h : Interleaving xs ys zs)
    (hleft : ∀ x rest s, x :: rest <:+ xs → P (x :: rest) s → P rest (step s x))
    (hright : ∀ y ∈ ys, ∀ rest s, P rest s → P rest (step s y)) (s : σ) (hs : P xs s) :
    P [] (zs.foldl step s) := by
  induction h generalizing s with
  | nil => exact hs
  | @left x xs ys zs _ ih =>
    -- a suffix of what comes later is a suffix of the whole
    refine ih ?_ hright (step s x) (hleft x xs s (List.suffix_refl _) hs)
    intro x' rest s' hsuffix
    exact hleft x' rest s' (hsuffix.trans (List.suffix_cons x xs))
  | @right y xs ys zs _ ih =>
    -- the first program stands still
    refine ih hleft ?_ (step s y) (hright y List.mem_cons_self xs s hs)
    intro y' hy'
    exact hright y' (List.mem_cons_of_mem y hy')

end Messenger.Lib
