import Messenger.Lib.Concat
import Messenger.Model.Crypto

/-!
# The salt of a conversation

`derive_for_messaging` puts the two names in order and one after the other. Both ends of a
conversation get the same salt. Two conversations get the same one if the names of the one are
those of the other, cut at another place.
-/

set_option autoImplicit false

namespace Messenger

open Messenger.Lib HKDF

/-- The salt is the two names in order, one after the other, with nothing in between. -/
theorem messagingSalt_eq (a b : Bytes) :
    messagingSalt a b = (inOrder a b).1 ++ (inOrder a b).2 := by
  unfold messagingSalt inOrder
  split
  · rfl
  · rfl

/-- The order makes up for the direction. -/
theorem messagingSalt_comm (a b : Bytes) : messagingSalt a b = messagingSalt b a := by
  rw [messagingSalt_eq, messagingSalt_eq, inOrder_comm]

/-- **What the salt tells apart.** The two ends of a conversation feed HKDF the same, and for two
    different pairs of names the salts are different, exactly if the names of neither pair, the
    smaller one first, are those of the other cut later. -/
theorem salt_separates_iff (a b c d : Bytes) :
    (messagingSalt a b = messagingSalt b a ∧
      (∀ (ssl : OpenSSL) (sharedSecret : Bytes) (purpose : String),
        deriveForMessaging ssl sharedSecret a b purpose
          = deriveForMessaging ssl sharedSecret b a purpose) ∧
      (s(a, b) ≠ s(c, d) → messagingSalt a b ≠ messagingSalt c d)) ↔
    ¬CutLater (inOrder a b) (inOrder c d) ∧ ¬CutLater (inOrder c d) (inOrder a b) := by
  have hsalts : messagingSalt a b = messagingSalt c d ↔ inOrder a b = inOrder c d ∨
      CutLater (inOrder a b) (inOrder c d) ∨ CutLater (inOrder c d) (inOrder a b) := by
    rw [messagingSalt_eq, messagingSalt_eq]
    exact append_eq_iff
  constructor
  · rintro ⟨-, -, hapart⟩
    refine ⟨fun hcut => ?_, fun hcut => ?_⟩
    · exact hapart (fun h => hcut.ne (inOrder_eq_iff.mpr h)) (hsalts.mpr (.inr (.inl hcut)))
    · exact hapart (fun h => hcut.ne (inOrder_eq_iff.mpr h.symm)) (hsalts.mpr (.inr (.inr hcut)))
  · rintro ⟨hlater, hearlier⟩
    refine ⟨messagingSalt_comm a b, ?_, ?_⟩
    · intro ssl sharedSecret purpose
      unfold deriveForMessaging
      rw [messagingSalt_comm]
    · intro hne hsame
      rcases hsalts.mp hsame with heq | hcut | hcut
      · exact hne (inOrder_eq_iff.mp heq)
      · exact hlater hcut
      · exact hearlier hcut

/-- Alice and Bob, and Al and Icebob. -/
theorem two_pairs_one_salt :
    s(bytes "alice", bytes "bob") ≠ s(bytes "al", bytes "icebob") ∧
      messagingSalt (bytes "alice") (bytes "bob") = messagingSalt (bytes "al")
        (bytes "icebob") := by
  decide

end Messenger
