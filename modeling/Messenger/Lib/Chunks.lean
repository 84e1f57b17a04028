import Mathlib.Data.List.Defs

/-!
# A list in pieces

`List.toChunks n` cuts a list into pieces of at most `n` elements. `IsCut` says what matters
about the pieces: none is empty or too long, and together they are the list.

It says nothing of all pieces but the last being full. Whoever sends a list in pieces and puts it
together again does not need that, and a sender that cuts in another way meets `IsCut` as well.
-/

set_option autoImplicit false

namespace Messenger.Lib

variable {α : Type} {n : Nat} {l : List α} {chunks : List (List α)}

/-- The pieces are a way to cut `l`: put together they give `l` back, and each has at least one
    element and at most `n`. -/
structure IsCut (n : Nat) (l : List α) (chunks : List (List α)) : Prop where
  flatten : chunks.flatten = l
  nonempty : ∀ c ∈ chunks, c ≠ []
  fits : ∀ c ∈ chunks, c.length ≤ n

theorem IsCut.concat (h : IsCut n l chunks) {c : List α} (hc : c ≠ []) (hfits : c.length ≤ n) :
    IsCut n (l ++ c) (chunks ++ [c]) where
  flatten := by rw [List.flatten_append, h.flatten, List.flatten_singleton]
  nonempty d hd := by
    rcases List.mem_append.mp hd with hd | hd
    · exact h.nonempty d hd
    · rw [List.mem_singleton.mp hd]
      exact hc
  fits d hd := by
    rcases List.mem_append.mp hd with hd | hd
    · exact h.fits d hd
    · rw [List.mem_singleton.mp hd]
      exact hfits

/-- The loop, with the piece `acc₁` begun and the pieces `acc₂` done. The induction is on what is
    still to be cut. The list that the finished pieces cut grows on the way, so it is generalised;
    the piece in progress is never empty, because the loop starts with the first element already in
    it. -/
theorem isCut_go (hn : 0 < n) (xs : List α) (acc₁ : Array α) (acc₂ : Array (List α))
    (hdone : IsCut n l acc₂.toList) (hbegun : acc₁.toList ≠ []) (hfits : acc₁.toList.length ≤ n) :
    IsCut n (l ++ acc₁.toList ++ xs) (List.toChunks.go n xs acc₁ acc₂) := by
  induction xs generalizing l acc₁ acc₂ with
  | nil =>
    rw [List.append_nil, List.toChunks.go, Array.toList_push]
    exact hdone.concat hbegun hfits
  | cons x xs ih =>
    have hpiece := hdone.concat hbegun hfits
    rw [List.toChunks.go]
    -- a full piece is put away and the next one begun with `x`; otherwise `x` joins the piece
    split
    · rw [← Array.toList_push] at hpiece
      have hnext := ih #[x] _ hpiece (by simp) (by simp; omega)
      simpa using hnext
    · rename_i hroom
      have hsize : acc₁.toList.length ≠ n := by simpa using hroom
      have hnext := ih (acc₁.push x) acc₂ hdone (by simp)
        (by rw [Array.toList_push, List.length_append, List.length_singleton]; omega)
      simpa using hnext

/-- The pieces of `toChunks` are a cut. The length must not be zero, for which `toChunks` gives the
    list as one piece. -/
theorem isCut_toChunks (hn : 0 < n) (l : List α) : IsCut n l (l.toChunks n) := by
  have hnil : IsCut n ([] : List α) [] := ⟨rfl, by simp, by simp⟩
  cases l with
  | nil =>
    rw [List.toChunks]
    exact hnil
  | cons x xs =>
    have hgo := isCut_go hn xs #[x] #[] hnil (by simp) (by simp; omega)
    obtain ⟨m, rfl⟩ : ∃ m, n = m + 1 := Nat.exists_eq_succ_of_ne_zero (by omega)
    simpa [List.toChunks] using hgo

end Messenger.Lib
