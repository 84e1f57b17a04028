import Mathlib.Data.PEquiv
import Messenger.Lib.Table

/-!
# Partial bijections kept in two tables

A one-to-one correspondence that grows and shrinks, stored as a table in each direction,
is a `PEquiv` as long as its clients add only pairs of which neither side is in use and
remove a pair from both tables. These are the two operations on `PEquiv`, with the tables
they leave.

The side conditions are arguments of the operations, so a correspondence that is not one-to-one
cannot be built: a program that inserts into the two tables without looking first has no image
here, and its proof fails where the condition is asked for.
-/

set_option autoImplicit false

namespace Messenger.Lib

variable {α β : Type} [DecidableEq α] [DecidableEq β]

/-- Add a pair of which neither side is in use. Were `a` in use, its old partner would still lead
    back to `a` while `a` leads to `b`; and likewise for `b`. -/
def bindPair (f : α ≃. β) (a : α) (b : β) (ha : f a = none) (hb : f.symm b = none) : α ≃. β where
  toFun := Table.insert f a b
  invFun := Table.insert f.symm b a
  inv x y := by
    by_cases hx : x = a
    · subst hx
      by_cases hy : y = b
      · subst hy
        simp
      · -- only the new pair has `x` on its side, since nothing led from it before
        have hne : f.symm y ≠ some x := by
          intro h
          rw [f.eq_some_iff, ha] at h
          cases h
        rw [Table.insert_of_ne hy, Table.insert_self]
        simp [hne, Ne.symm hy]
    · by_cases hy : y = b
      · subst hy
        -- the same from the other side
        have hne : f x ≠ some y := by
          intro h
          rw [← f.eq_some_iff, hb] at h
          cases h
        rw [Table.insert_of_ne hx, Table.insert_self]
        simp [hne, Ne.symm hx]
      · rw [Table.insert_of_ne hx, Table.insert_of_ne hy]
        exact f.eq_some_iff

/-- Remove a pair from both sides. Erasing only one of the two entries would leave the other
    pointing at something that does not point back. -/
def unbindPair (f : α ≃. β) (a : α) (b : β) (hab : f a = some b) : α ≃. β where
  toFun := Table.erase f a
  invFun := Table.erase f.symm b
  inv x y := by
    -- both entries that go belong to the same pair
    have hba : f.symm b = some a := f.eq_some_iff.mpr hab
    by_cases hx : x = a
    · subst hx
      by_cases hy : y = b
      · subst hy
        simp
      · have hne : f.symm y ≠ some x := by
          intro h
          rw [f.eq_some_iff, hab] at h
          exact hy (Option.some.inj h).symm
        rw [Table.erase_of_ne hy, Table.erase_self]
        simp [hne]
    · by_cases hy : y = b
      · subst hy
        have hne : f x ≠ some y := by
          intro h
          rw [← f.eq_some_iff, hba] at h
          exact hx (Option.some.inj h).symm
        rw [Table.erase_of_ne hx, Table.erase_self]
        simp [hne]
      · rw [Table.erase_of_ne hx, Table.erase_of_ne hy]
        exact f.eq_some_iff

variable {f : α ≃. β} {a : α} {b : β}

theorem bindPair_apply (ha : f a = none) (hb : f.symm b = none) (x : α) :
    bindPair f a b ha hb x = Table.insert f a b x := rfl

theorem bindPair_symm_apply (ha : f a = none) (hb : f.symm b = none) (y : β) :
    (bindPair f a b ha hb).symm y = Table.insert f.symm b a y := rfl

theorem unbindPair_apply (hab : f a = some b) (x : α) :
    unbindPair f a b hab x = Table.erase f a x := rfl

theorem unbindPair_symm_apply (hab : f a = some b) (y : β) :
    (unbindPair f a b hab).symm y = Table.erase f.symm b y := rfl

end Messenger.Lib
