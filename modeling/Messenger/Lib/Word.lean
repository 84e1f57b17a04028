import Mathlib.Data.Nat.Bitwise
import Mathlib.Data.List.Basic
import Mathlib.Tactic.Ring

/-!
# Machine words as bytes

A fixed-width unsigned word is written as so many bytes, least significant first
(`leBytes`) or most significant first (`beBytes`), and read back as a number
(`leValue`, `beValue`). Both directions are exact: writing and reading gives the
number reduced to the width, reading and writing gives the bytes back.

Programs assemble words with shifts and ors rather than with a sum. The last
section says once that the two agree, so that no later proof touches a bit: the
pieces of a word occupy disjoint bit ranges, and there `|||` is `+`.
-/

set_option autoImplicit false

namespace Messenger.Lib

/-! ## Writing and reading -/

/-- The low `k` bytes of `v`, least significant first. What is above them is lost. -/
def leBytes : Nat → Nat → List UInt8
  | 0, _ => []
  | k + 1, v => UInt8.ofNat v :: leBytes k (v / 256)

/-- The number little-endian bytes spell. -/
def leValue : List UInt8 → Nat
  | [] => 0
  | b :: bs => b.toNat + 256 * leValue bs

/-- The low `k` bytes of `v`, most significant first. -/
def beBytes (k v : Nat) : List UInt8 := (leBytes k v).reverse

/-- The number big-endian bytes spell. -/
def beValue (bs : List UInt8) : Nat := leValue bs.reverse

@[simp] theorem leBytes_length (k v : Nat) : (leBytes k v).length = k := by
  induction k generalizing v with
  | zero => rfl
  | succ k ih => simp [leBytes, ih]

@[simp] theorem beBytes_length (k v : Nat) : (beBytes k v).length = k := by
  simp [beBytes]

theorem leValue_leBytes (k v : Nat) : leValue (leBytes k v) = v % 256 ^ k := by
  induction k generalizing v with
  | zero => simp [leBytes, leValue, Nat.mod_one]
  | succ k ih =>
    have hb : (UInt8.ofNat v).toNat = v % 256 := by simp
    rw [leBytes, leValue, ih, hb, Nat.pow_succ, Nat.mul_comm (256 ^ k), Nat.mod_mul]

theorem leValue_lt (bs : List UInt8) : leValue bs < 256 ^ bs.length := by
  induction bs with
  | nil => simp [leValue]
  | cons b bs ih =>
    have hb := b.toNat_lt
    rw [leValue, List.length_cons, Nat.pow_succ]
    omega

/-- Reading and writing back gives the bytes that were read. Together with `leValue_leBytes` it
    makes the two inverse to each other on numbers of the width. -/
theorem leBytes_leValue (bs : List UInt8) : leBytes bs.length (leValue bs) = bs := by
  induction bs with
  | nil => rfl
  | cons b bs ih =>
    have hb := b.toNat_lt
    have hhead : UInt8.ofNat (b.toNat + 256 * leValue bs) = b := by
      apply UInt8.toNat_inj.mp
      rw [UInt8.toNat_ofNat']
      omega
    have htail : (b.toNat + 256 * leValue bs) / 256 = leValue bs := by omega
    rw [List.length_cons, leBytes, leValue, hhead, htail, ih]

theorem beValue_beBytes (k v : Nat) : beValue (beBytes k v) = v % 256 ^ k := by
  rw [beValue, beBytes, List.reverse_reverse, leValue_leBytes]

theorem beValue_lt (bs : List UInt8) : beValue bs < 256 ^ bs.length := by
  simpa [beValue] using leValue_lt bs.reverse

theorem beBytes_beValue (bs : List UInt8) : beBytes bs.length (beValue bs) = bs := by
  have h := leBytes_leValue bs.reverse
  rw [List.length_reverse] at h
  rw [beBytes, beValue, h, List.reverse_reverse]

/-- The `k` bytes that spell a number below `256 ^ k` are its `k` big-endian bytes. In this form a
    field of a format is a grammar with one spelling for each value. -/
theorem be_spelling {k n : Nat} {bs : List UInt8} (hn : n < 256 ^ k) :
    (bs.length = k ∧ beValue bs = n) ↔ bs = beBytes k n := by
  constructor
  · rintro ⟨rfl, rfl⟩
    exact (beBytes_beValue bs).symm
  · rintro rfl
    exact ⟨beBytes_length k n, by rw [beValue_beBytes, Nat.mod_eq_of_lt hn]⟩

theorem le_spelling {k n : Nat} {bs : List UInt8} (hn : n < 256 ^ k) :
    (bs.length = k ∧ leValue bs = n) ↔ bs = leBytes k n := by
  constructor
  · rintro ⟨rfl, rfl⟩
    exact (leBytes_leValue bs).symm
  · rintro rfl
    exact ⟨leBytes_length k n, by rw [leValue_leBytes, Nat.mod_eq_of_lt hn]⟩

/-! ## Shifts and ors

Only `lor_shift` mentions a bit; the word lemmas below are arithmetic over it. -/

/-- A number above a bit boundary, or-ed with one below it, is their sum. -/
theorem lor_shift {lo i : Nat} (hi : Nat) (h : lo < 2 ^ i) :
    hi <<< i ||| lo = hi * 2 ^ i + lo := by
  rw [← Nat.shiftLeft_add_eq_or_of_lt h, Nat.shiftLeft_eq]

theorem be16_toNat (b₀ b₁ : UInt8) :
    ((b₀.toUInt16 <<< 8) ||| b₁.toUInt16).toNat = beValue [b₀, b₁] := by
  have h₀ := b₀.toNat_lt
  have h₁ := b₁.toNat_lt
  have hs : b₀.toNat <<< 8 % 2 ^ 16 = b₀.toNat <<< 8 := by
    rw [Nat.shiftLeft_eq]; omega
  simp only [UInt16.toNat_or, UInt16.toNat_shiftLeft, UInt8.toNat_toUInt16]
  rw [show (8 : UInt16).toNat % 16 = 8 from rfl, hs, lor_shift _ h₁]
  simp [beValue, leValue]
  omega

/-- Four bytes assembled high byte first. The shifts are in 32 bits and a byte shifted by 24 still
    fits, so no bit is lost. -/
theorem be32_toNat (b₀ b₁ b₂ b₃ : UInt8) :
    ((b₀.toUInt32 <<< 24) ||| (b₁.toUInt32 <<< 16) ||| (b₂.toUInt32 <<< 8) |||
      b₃.toUInt32).toNat = beValue [b₀, b₁, b₂, b₃] := by
  have h₀ := b₀.toNat_lt
  have h₁ := b₁.toNat_lt
  have h₂ := b₂.toNat_lt
  have h₃ := b₃.toNat_lt
  have s₀ : b₀.toNat <<< 24 % 2 ^ 32 = b₀.toNat <<< 24 := by rw [Nat.shiftLeft_eq]; omega
  have s₁ : b₁.toNat <<< 16 % 2 ^ 32 = b₁.toNat <<< 16 := by rw [Nat.shiftLeft_eq]; omega
  have s₂ : b₂.toNat <<< 8 % 2 ^ 32 = b₂.toNat <<< 8 := by rw [Nat.shiftLeft_eq]; omega
  simp only [UInt32.toNat_or, UInt32.toNat_shiftLeft, UInt8.toNat_toUInt32]
  rw [show (24 : UInt32).toNat % 32 = 24 from rfl, show (16 : UInt32).toNat % 32 = 16 from rfl,
    show (8 : UInt32).toNat % 32 = 8 from rfl, s₀, s₁, s₂]
  -- Reassociated from the low end, each or has its right operand below the boundary.
  rw [Nat.lor_assoc, Nat.lor_assoc, lor_shift b₂.toNat h₃,
    lor_shift b₁.toNat (i := 16) (by omega), lor_shift b₀.toNat (i := 24) (by omega)]
  simp [beValue, leValue]
  ring

/-- `acc`, below bit `8 * i`, or-ed with a byte shifted to bit `8 * i`. This is one turn of a loop
    that assembles a little-endian word. -/
theorem lor_byte {acc i : Nat} (b : UInt8) (h : acc < 256 ^ i) :
    acc ||| b.toNat <<< (8 * i) = acc + b.toNat * 256 ^ i := by
  have h' : acc < 2 ^ (8 * i) := by rwa [Nat.pow_mul]
  rw [Nat.lor_comm, lor_shift _ h', Nat.pow_mul, Nat.add_comm]

theorem leValue_concat (bs : List UInt8) (b : UInt8) :
    leValue (bs ++ [b]) = leValue bs + b.toNat * 256 ^ bs.length := by
  induction bs with
  | nil => simp [leValue]
  | cons c bs ih =>
    rw [List.cons_append, leValue, ih, leValue, List.length_cons, Nat.pow_succ]
    ring

end Messenger.Lib
