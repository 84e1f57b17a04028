import Mathlib.Logic.Function.Basic

/-!
# Tables

A map from keys to values as a lookup function: what `find`, assignment to `t[k]` and
`erase` do to a hash map, for clients that never depend on the order of its entries.

A client that goes through all entries of a map in the map's own order is not served by this. It
needs a list, or the order as a parameter.
-/

set_option autoImplicit false

namespace Messenger.Lib

/-- A finite map, seen through its lookup. -/
abbrev Table (K V : Type) := K → Option V

namespace Table

variable {K V : Type}

def empty : Table K V := fun _ => none

variable [DecidableEq K]

/-- `t[k] = v`. -/
def insert (t : Table K V) (k : K) (v : V) : Table K V := Function.update t k (some v)

/-- `t.erase(k)`. -/
def erase (t : Table K V) (k : K) : Table K V := Function.update t k none

@[simp] theorem insert_self (t : Table K V) (k : K) (v : V) : t.insert k v k = some v :=
  Function.update_self ..

@[simp] theorem erase_self (t : Table K V) (k : K) : t.erase k k = none :=
  Function.update_self ..

@[simp] theorem insert_insert (t : Table K V) (k : K) (v w : V) :
    (t.insert k v).insert k w = t.insert k w :=
  Function.update_idem ..

@[simp] theorem erase_erase (t : Table K V) (k : K) : (t.erase k).erase k = t.erase k :=
  Function.update_idem ..

theorem insert_eq_self {t : Table K V} {k : K} {v : V} (h : t k = some v) : t.insert k v = t := by
  unfold insert
  rw [← h]
  exact Function.update_eq_self ..

theorem insert_eq_self_iff {t : Table K V} {k : K} {v : V} : t.insert k v = t ↔ t k = some v := by
  refine ⟨fun h => ?_, insert_eq_self⟩
  rw [← h, insert_self]

theorem insert_of_ne {k k' : K} (h : k' ≠ k) (t : Table K V) (v : V) :
    t.insert k v k' = t k' :=
  Function.update_of_ne h ..

theorem erase_of_ne {k k' : K} (h : k' ≠ k) (t : Table K V) : t.erase k k' = t k' :=
  Function.update_of_ne h ..

theorem of_erase {k k' : K} {t : Table K V} {v : V} (h : t.erase k k' = some v) :
    t k' = some v := by
  by_cases hk : k' = k
  · subst hk
    rw [erase_self] at h
    cases h
  · rwa [erase_of_ne hk] at h

end Table

end Messenger.Lib
