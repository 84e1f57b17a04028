import Mathlib.Data.Sym.Sym2

/-!
# Two strings in order, one after the other

A pair can be put in order, and then it does not matter which of the two came first
(`inOrder_eq_iff`). Written one after the other two strings do not show where the first one
ends: another pair gives the same, exactly if it is the same cut at another place
(`append_eq_iff`).

Both matter to two parties that have to derive the same string from two names without agreeing on
who comes first. Order makes the result symmetric; the missing mark between the strings is what two
different pairs may collide on.
-/

set_option autoImplicit false

namespace Messenger.Lib

section

variable {β : Type} [LT β] [DecidableLT β]

/-- The smaller one first. For two that are equal there is nothing to choose. -/
def inOrder (a b : β) : β × β := if a < b then (a, b) else (b, a)

theorem inOrder_eq_or (a b : β) : inOrder a b = (a, b) ∨ inOrder a b = (b, a) := by
  unfold inOrder
  split
  · exact .inl rfl
  · exact .inr rfl

variable [LE β] [Std.IsLinearOrder β] [Std.LawfulOrderLT β]

/-- Order forgets who came first. The order has to be total: of two that cannot be compared, the
    program would put the second one first both times. -/
theorem inOrder_comm (a b : β) : inOrder a b = inOrder b a := by
  unfold inOrder
  by_cases hab : a < b
  · rw [if_pos hab, if_neg (Std.not_lt.mpr (Std.le_of_lt hab))]
  · by_cases hba : b < a
    · rw [if_neg hab, if_pos hba]
    · rw [if_neg hab, if_neg hba, Std.le_antisymm (Std.not_lt.mp hab) (Std.not_lt.mp hba)]

/-- And that is all it forgets: two pairs look alike in order exactly if they are the same unordered
    pair. -/
theorem inOrder_eq_iff {a b c d : β} : inOrder a b = inOrder c d ↔ s(a, b) = s(c, d) := by
  constructor
  · intro h
    rw [Sym2.eq_iff]
    rcases inOrder_eq_or a b with hab | hab <;> rcases inOrder_eq_or c d with hcd | hcd <;>
      rw [hab, hcd] at h <;> cases h <;> simp
  · intro h
    rcases Sym2.eq_iff.mp h with ⟨rfl, rfl⟩ | ⟨rfl, rfl⟩
    · rfl
    · exact inOrder_comm _ _

end

variable {α : Type} {p q : List α × List α}

/-- `q` is `p` cut later: what lies between the two cuts has gone from the second string to the
    first. It is not empty, so this is never a relation of a pair to itself (`CutLater.ne`). -/
def CutLater (p q : List α × List α) : Prop := ∃ w ≠ [], q.1 = p.1 ++ w ∧ p.2 = w ++ q.2

theorem CutLater.ne (h : CutLater p q) : p ≠ q := by
  rintro rfl
  obtain ⟨w, hw, hfirst, -⟩ := h
  exact hw (List.self_eq_append_right.mp hfirst)

/-- **Where a string can be cut in two.** Two pairs give the same string exactly if they are the
    same pair or one of them is the other cut later. -/
theorem append_eq_iff : p.1 ++ p.2 = q.1 ++ q.2 ↔ p = q ∨ CutLater p q ∨ CutLater q p := by
  constructor
  · intro h
    by_cases hpq : p = q
    · exact .inl hpq
    · -- a difference that is empty would make the pairs equal
      have hw {w : List α} {x y : List α × List α} (hne : x ≠ y) (hfirst : y.1 = x.1 ++ w)
          (hsecond : x.2 = w ++ y.2) : CutLater x y := by
        refine ⟨w, ?_, hfirst, hsecond⟩
        rintro rfl
        apply hne
        rw [List.append_nil] at hfirst
        exact Prod.ext hfirst.symm hsecond
      rcases List.append_eq_append_iff.mp h with ⟨w, hfirst, hsecond⟩ | ⟨w, hfirst, hsecond⟩
      · exact .inr (.inl (hw hpq hfirst hsecond))
      · exact .inr (.inr (hw (Ne.symm hpq) hfirst hsecond))
  · rintro (rfl | ⟨w, -, hfirst, hsecond⟩ | ⟨w, -, hfirst, hsecond⟩)
    · rfl
    · rw [hfirst, hsecond, List.append_assoc]
    · rw [hfirst, hsecond, List.append_assoc]

end Messenger.Lib
