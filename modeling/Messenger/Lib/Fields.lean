import Mathlib.Algebra.Order.BigOperators.Group.List
import Mathlib.Algebra.Order.Ring.Nat

/-!
# Fields

The fields of a list are what is left between separators, without the empty ones. A
separator cuts the list in two (`fields_append_cons`), and that is all the proofs need.
-/

set_option autoImplicit false

namespace Messenger.Lib

variable {α : Type} {p : α → Bool}

/-- What is left between separators, without the empty pieces. Several separators in a row cut the
    list only once, and those at either end not at all. -/
def fields (p : α → Bool) (s : List α) : List (List α) :=
  (s.splitOnP p).filter fun field => !field.isEmpty

/-- A separator cuts the list in two, and the fields are those of the two parts. All other facts
    about concrete lists are read off this one. -/
theorem fields_append_cons (xs ys : List α) {sep : α} (h : p sep = true) :
    fields p (xs ++ sep :: ys) = fields p xs ++ fields p ys := by
  unfold fields
  rw [List.splitOnP_append_cons _ _ h, List.filter_append]

theorem fields_cons {sep : α} (h : p sep = true) (s : List α) : fields p (sep :: s) = fields p s :=
  fields_append_cons [] s h

theorem fields_word {word : List α} (hne : word ≠ []) (h : ∀ x ∈ word, p x = false) :
    fields p word = [word] := by
  unfold fields
  rw [List.splitOnP_eq_singleton h]
  simp [hne]

theorem fields_gap {gap : List α} (h : ∀ x ∈ gap, p x = true) (s : List α) :
    fields p (gap ++ s) = fields p s := by
  induction gap with
  | nil => rfl
  | cons sep gap ih =>
    rw [List.cons_append, fields_cons (h sep List.mem_cons_self)]
    exact ih fun x hx => h x (List.mem_cons_of_mem sep hx)

theorem fields_append_gap (xs : List α) {gap : List α} (hne : gap ≠ []) (h : ∀ x ∈ gap, p x = true)
    (s : List α) : fields p (xs ++ (gap ++ s)) = fields p xs ++ fields p s := by
  obtain ⟨sep, gap, rfl⟩ := List.exists_cons_of_ne_nil hne
  rw [List.cons_append, fields_append_cons xs (gap ++ s) (h sep List.mem_cons_self),
    fields_gap fun x hx => h x (List.mem_cons_of_mem sep hx)]

/-- A piece between separators has no separator in it. The hard case is an element that is not a
    separator: it goes to the front of the first piece, and there is a first piece because
    `splitOnP` never gives the empty list. -/
theorem not_sep_of_mem_splitOnP {s piece : List α} (h : piece ∈ s.splitOnP p) :
    ∀ x ∈ piece, p x = false := by
  induction s generalizing piece with
  | nil =>
    rw [List.splitOnP_nil, List.mem_singleton] at h
    simp [h]
  | cons b s ih =>
    rw [List.splitOnP_cons_eq_if_modifyHead] at h
    split at h
    · rcases List.mem_cons.mp h with rfl | h
      · simp
      · exact ih h
    next hb =>
    obtain ⟨first, rest, hpieces⟩ := List.exists_cons_of_ne_nil (List.splitOnP_ne_nil p s)
    rw [hpieces] at h ih
    rcases List.mem_cons.mp h with rfl | h
    · intro x hx
      rcases List.mem_cons.mp hx with rfl | hx
      · simpa using hb
      · exact ih List.mem_cons_self x hx
    · exact ih (List.mem_cons_of_mem first h)

theorem mem_fields {s field : List α} (h : field ∈ fields p s) :
    field ≠ [] ∧ ∀ x ∈ field, p x = false := by
  have hmem := List.mem_filter.mp h
  exact ⟨by simpa using hmem.2, not_sep_of_mem_splitOnP hmem.1⟩

/-- The pieces have no more elements than the list. They have fewer by the number of separators,
    which is not needed. -/
theorem sum_length_splitOnP_le (p : α → Bool) (s : List α) :
    ((s.splitOnP p).map List.length).sum ≤ s.length := by
  induction s with
  | nil => simp
  | cons b s ih =>
    rw [List.splitOnP_cons_eq_if_modifyHead, List.length_cons]
    split
    · rw [List.map_cons, List.sum_cons, List.length_nil]
      omega
    · obtain ⟨first, rest, hpieces⟩ := List.exists_cons_of_ne_nil (List.splitOnP_ne_nil p s)
      rw [hpieces, List.map_cons, List.sum_cons] at ih
      rw [hpieces, List.modifyHead_cons, List.map_cons, List.sum_cons, List.length_cons]
      omega

/-- The fields have no more elements than the list. So there are no more of them than elements
    either, each having one at least. -/
theorem sum_length_fields_le (p : α → Bool) (s : List α) :
    ((fields p s).map List.length).sum ≤ s.length := by
  have hkept : ((fields p s).map List.length).Sublist ((s.splitOnP p).map List.length) :=
    List.filter_sublist.map _
  exact (hkept.sum_le_sum fun _ _ => Nat.zero_le _).trans (sum_length_splitOnP_le p s)

end Messenger.Lib
