import Messenger.Lib.Table

/-!
# A table with an index over an attribute

The values of a table have an attribute, and a second table leads from an attribute to the key of
one value that has it. Several values may have the same attribute; the index has room for one of
them. It is `Indexed` if every value is found, or another one with the same attribute in its
place. Removing a value together with the index entry of its attribute keeps that exactly if the
value is the only one with the attribute (`Indexed.erase_iff`).
-/

set_option autoImplicit false

namespace Messenger.Lib

variable {K V A : Type} [DecidableEq K] [DecidableEq A] {attr : V → A} {t : Table K V}
  {ix : Table A K} {k : K} {v : V}

/-- Every value has an index entry, and the entry leads to a value with the same attribute. It is
    not asked that the entry leads to the same value: when two values have one attribute, one of
    them is found only through the table. -/
def Indexed (attr : V → A) (t : Table K V) (ix : Table A K) : Prop :=
  ∀ k v, t k = some v → ∃ k' v', ix (attr v) = some k' ∧ t k' = some v' ∧ attr v' = attr v

/-- No other value has the attribute of `v`, which is at `k`. -/
def Alone (attr : V → A) (t : Table K V) (k : K) (v : V) : Prop :=
  ∀ k' v', t k' = some v' → k' ≠ k → attr v' ≠ attr v

/-- No two values have the same attribute. -/
def Distinct (attr : V → A) (t : Table K V) : Prop := ∀ k v, t k = some v → Alone attr t k v

omit [DecidableEq K] [DecidableEq A] in
theorem key_ne_of_attr_ne {k' : K} {v' : V} (hk : t k = some v) (hk' : t k' = some v')
    (h : attr v ≠ attr v') : k ≠ k' := by
  rintro rfl
  rw [hk] at hk'
  exact h (congrArg attr (Option.some.inj hk'))

omit [DecidableEq K] [DecidableEq A] in
theorem indexed_empty : Indexed attr (.empty : Table K V) ix := fun _ _ h => by cases h

/-- A new value takes over the index entry of its attribute. Those that had it before are still
    served, by the new value; that is the case `hattr` holds in. -/
theorem Indexed.insert (h : Indexed attr t ix) (hk : t k = none) (v : V) :
    Indexed attr (t.insert k v) (ix.insert (attr v) k) := by
  intro k₁ v₁ hk₁
  by_cases hattr : attr v₁ = attr v
  · -- Whatever the entry was, it leads to the new value now.
    exact ⟨k, v, by rw [hattr, Table.insert_self], Table.insert_self .., hattr.symm⟩
  · have hne : k₁ ≠ k := by
      rintro rfl
      rw [Table.insert_self] at hk₁
      exact hattr (congrArg attr (Option.some.inj hk₁).symm)
    rw [Table.insert_of_ne hne] at hk₁
    obtain ⟨k', v', hix, hk', hattr'⟩ := h k₁ v₁ hk₁
    refine ⟨k', v', by rw [Table.insert_of_ne hattr, hix], ?_, hattr'⟩
    rw [Table.insert_of_ne, hk']
    rintro rfl
    rw [hk] at hk'
    cases hk'

/-- **Removing a value with the entry of its attribute** leaves an index exactly if no other value
    needs the entry. The entry is removed by its attribute, whichever value it led to. -/
theorem Indexed.erase_iff (h : Indexed attr t ix) (hk : t k = some v) :
    Indexed attr (t.erase k) (ix.erase (attr v)) ↔ Alone attr t k v := by
  constructor
  · -- another value with the attribute would need an entry where there is none now
    intro hindexed k₁ v₁ hk₁ hne hattr
    obtain ⟨k', v', hix, -, -⟩ := hindexed k₁ v₁ (by rw [Table.erase_of_ne hne, hk₁])
    rw [hattr, Table.erase_self] at hix
    cases hix
  · -- every other value has another attribute, so its entry has not been touched
    intro halone k₁ v₁ hk₁
    have hne : k₁ ≠ k := by
      rintro rfl
      rw [Table.erase_self] at hk₁
      cases hk₁
    rw [Table.erase_of_ne hne] at hk₁
    have hattr : attr v₁ ≠ attr v := halone k₁ v₁ hk₁ hne
    obtain ⟨k', v', hix, hk', hattr'⟩ := h k₁ v₁ hk₁
    refine ⟨k', v', by rw [Table.erase_of_ne hattr, hix], ?_, hattr'⟩
    rw [← hattr'] at hattr
    rw [Table.erase_of_ne (key_ne_of_attr_ne hk' hk hattr), hk']

omit [DecidableEq A] in
theorem Distinct.erase (h : Distinct attr t) (k : K) : Distinct attr (t.erase k) := by
  have hback : ∀ {k₁ v₁}, t.erase k k₁ = some v₁ → t k₁ = some v₁ := by
    intro k₁ v₁ hk₁
    by_cases hne : k₁ = k
    · rw [hne, Table.erase_self] at hk₁
      cases hk₁
    · rwa [Table.erase_of_ne hne] at hk₁
  intro k₁ v₁ hk₁ k₂ v₂ hk₂
  exact h k₁ v₁ (hback hk₁) k₂ v₂ (hback hk₂)

end Messenger.Lib
