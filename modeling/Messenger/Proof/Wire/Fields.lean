import Messenger.Spec.Wire

/-!
# The fields of the wire formats

Each field of the decoder recognises exactly the bytes the grammar spells for it, and
each writer of the encoder appends exactly those bytes. After this file shifts, masks
and offsets are gone: `Proof/Wire/Decode.lean` puts the readers together with the rules
of `Lib/Reader.lean`, `Proof/Wire/Encode.lean` puts the writers together by appending.

The failures a field may end in are the thrown ones (`Failure.IsThrown`): each bounds
check is strong enough for the unchecked read behind it.

There is one kind of field that is not read under a check. `read_u64` is also called for the size
in a `FileStart`, on bytes that came in as an entry and may be too few; there the read leaves the
buffer (`readU64_short`).

The bytes of a word are taken by shifts and masks in the source, and by division in the grammar.
The two are compared once for each width; for 64 bits the loop of the source is followed turn by
turn, with the bytes that have been read as the invariant (`readU64_loop`).
-/

set_option autoImplicit false

namespace Messenger

open Messenger.Lib

/-! ## Words in memory -/

/-- Two bytes are read as the number they spell, whatever stands before and behind them. The shifts
    of the source are gone after this: what is left is `beValue`, and the rest is done by the lemmas
    about it. -/
theorem readU16_append (before t : Bytes) (b₀ b₁ : UInt8) :
    readU16 (before ++ ([b₀, b₁] ++ t)) before.length
      = .ok (UInt16.ofNat (beValue [b₀, b₁])) := by
  have h₀ := byteAt_append before ([b₀, b₁] ++ t) 0
  have h₁ := byteAt_append before ([b₀, b₁] ++ t) 1
  simp only [Nat.add_zero] at h₀
  simp only [readU16, h₀, h₁, ← be16_toNat, UInt16.ofNat_toNat]
  rfl

theorem readU32_append (before t : Bytes) (b₀ b₁ b₂ b₃ : UInt8) :
    readU32 (before ++ ([b₀, b₁, b₂, b₃] ++ t)) before.length
      = .ok (UInt32.ofNat (beValue [b₀, b₁, b₂, b₃])) := by
  have h₀ := byteAt_append before ([b₀, b₁, b₂, b₃] ++ t) 0
  have h₁ := byteAt_append before ([b₀, b₁, b₂, b₃] ++ t) 1
  have h₂ := byteAt_append before ([b₀, b₁, b₂, b₃] ++ t) 2
  have h₃ := byteAt_append before ([b₀, b₁, b₂, b₃] ++ t) 3
  simp only [Nat.add_zero] at h₀
  simp only [readU32, h₀, h₁, h₂, h₃, ← be32_toNat, UInt32.ofNat_toNat]
  rfl

/-- One more byte at the top of a 64-bit accumulator. The bytes that are there already lie below the
    shifted one, so `|` is a sum; nothing is shifted out, since there are at most eight of them. -/
theorem u64_or_byte {i : Nat} (hi : i < 8) (acc : List UInt8) (hacc : acc.length = i)
    (b : UInt8) :
    UInt64.ofNat (leValue acc) ||| (b.toUInt64 <<< UInt64.ofNat (i * 8))
      = UInt64.ofNat (leValue (acc ++ [b])) := by
  have hlt : leValue acc < 256 ^ i := hacc ▸ leValue_lt acc
  have hb := b.toNat_lt
  have hpow : (256 : Nat) ^ i ≤ 256 ^ 7 := Nat.pow_le_pow_right (by decide) (by omega)
  -- the shift loses no bits
  have hsh : b.toNat * 256 ^ i < 2 ^ 64 := by
    calc b.toNat * 256 ^ i ≤ 255 * 256 ^ 7 := Nat.mul_le_mul (by omega) hpow
      _ < 2 ^ 64 := by decide
  have hs : b.toNat <<< (8 * i) = b.toNat * 256 ^ i := by
    rw [Nat.shiftLeft_eq, Nat.pow_mul]
  have hi64 : (UInt64.ofNat (i * 8)).toNat % 64 = 8 * i := by
    rw [UInt64.toNat_ofNat']; omega
  apply UInt64.toNat_inj.mp
  rw [UInt64.toNat_or, UInt64.toNat_shiftLeft, UInt8.toNat_toUInt64, hi64, hs,
    Nat.mod_eq_of_lt hsh, UInt64.toNat_ofNat', UInt64.toNat_ofNat', leValue_concat, hacc,
    Nat.mod_eq_of_lt (show leValue acc < 2 ^ 64 by omega), ← hs, lor_byte b hlt, hs]
  refine (Nat.mod_eq_of_lt ?_).symm
  have hsum : leValue acc + b.toNat * 256 ^ i < 256 ^ (i + 1) := by
    have := leValue_lt (acc ++ [b])
    rwa [leValue_concat, List.length_append, hacc] at this
  calc leValue acc + b.toNat * 256 ^ i < 256 ^ (i + 1) := hsum
    _ ≤ 256 ^ 8 := Nat.pow_le_pow_right (by decide) (by omega)

/-- The loop of `read_u64` after `k` turns. `readU64` is this at 8; the proofs need it at any
    number, which the source does not name. -/
def readU64Turns (raw : Bytes) (off k : Nat) : Except Failure UInt64 :=
  (List.range k).foldlM (fun value i => do
    let b ← byteAt raw (off + i)
    return value ||| (b.toUInt64 <<< UInt64.ofNat (i * 8))) 0

theorem readU64Turns_succ (raw : Bytes) (off k : Nat) :
    readU64Turns raw off (k + 1) = readU64Turns raw off k >>= fun value =>
      byteAt raw (off + k) >>= fun b =>
        pure (value ||| (b.toUInt64 <<< UInt64.ofNat (k * 8))) := by
  unfold readU64Turns
  rw [List.range_succ, List.foldlM_append]
  simp only [List.foldlM_cons, List.foldlM_nil, bind_pure]

/-- After `k` turns the accumulator holds the first `k` bytes. By induction on the turns, with
    `u64_or_byte` for each. -/
theorem readU64_loop (before e t : Bytes) (he : e.length = 8) : ∀ k ≤ 8,
    readU64Turns (before ++ (e ++ t)) before.length k = .ok (UInt64.ofNat (leValue (e.take k)))
  | 0, _ => rfl
  | k + 1, hk => by
    have hke : k < e.length := by omega
    have hb : byteAt (before ++ (e ++ t)) (before.length + k) = .ok e[k] := by
      rw [byteAt_append, byteAt, List.getElem?_append_left hke, List.getElem?_eq_getElem hke]
    have hlen : (e.take k).length = k := List.length_take_of_le (by omega)
    rw [readU64Turns_succ, readU64_loop before e t he k (by omega), ok_bind, hb, ok_bind,
      List.take_succ_eq_append_getElem hke, ← u64_or_byte (by omega) (e.take k) hlen]
    rfl

theorem readU64_append (before e t : Bytes) (he : e.length = 8) :
    readU64 (before ++ (e ++ t)) before.length = .ok (UInt64.ofNat (leValue e)) := by
  have h := readU64_loop before e t he 8 (Nat.le_refl 8)
  rwa [← he, List.take_length, he] at h

/-- There is a value for as long as there are bytes, and nothing is said about which. This is for
    reads whose bytes are not known, as that of the size in a `FileStart`. -/
theorem readU64Turns_ok (raw : Bytes) (off : Nat) : ∀ k, off + k ≤ raw.length →
    ∃ v, readU64Turns raw off k = .ok v
  | 0, _ => ⟨0, rfl⟩
  | k + 1, hk => by
    obtain ⟨v, hv⟩ := readU64Turns_ok raw off k (by omega)
    have hb : byteAt raw (off + k) = .ok raw[off + k] := by
      rw [byteAt, List.getElem?_eq_getElem (by omega)]
    rw [readU64Turns_succ, hv, ok_bind, hb]
    exact ⟨_, rfl⟩

/-- Where the bytes run out, the read leaves the buffer: `read_u64` does not look at the length. The
    first turn that has no byte is the one that fails. -/
theorem readU64Turns_short {raw : Bytes} {off : Nat} (hoff : off ≤ raw.length) :
    ∀ k, raw.length < off + k → readU64Turns raw off k = .error .outOfBounds
  | 0, hk => by omega
  | k + 1, hk => by
    rw [readU64Turns_succ]
    by_cases hlast : raw.length < off + k
    · rw [readU64Turns_short hoff k hlast]
      rfl
    · obtain ⟨v, hv⟩ := readU64Turns_ok raw off k (by omega)
      have hb : byteAt raw (off + k) = .error .outOfBounds := by
        rw [byteAt, List.getElem?_eq_none (by omega)]
      rw [hv, ok_bind, hb]
      rfl

theorem readU64_ok {raw : Bytes} {off : Nat} (h : off + 8 ≤ raw.length) :
    ∃ v, readU64 raw off = .ok v := readU64Turns_ok raw off 8 h

/-- A size of fewer than eight bytes is read beyond its end. -/
theorem readU64_short {raw : Bytes} (h : raw.length < 8) : readU64 raw 0 = .error .outOfBounds :=
  readU64Turns_short (Nat.zero_le _) 8 (by omega)

/-! ## Fields recognise their spelling -/

section Fields

variable {α : Type} {read : Bytes → Nat → Except Failure α} {missing : String}

/-- A field is a check and a read. The message of the check is the only thing in which the fields of
    one width differ. -/
theorem wordField_run (width : Nat) (raw : Bytes) (off : Nat) :
    (wordField width read missing raw).run off =
      if off + width > raw.length then .error (runtimeError missing)
      else (read raw off).map fun v => (v, off + width) := by
  unfold wordField
  by_cases h : off + width > raw.length
  · simp [throwIf_of h, h]
  · cases hr : read raw off <;> simp [throwIf_not h, h, hr, Except.map]

/-- A field recognises the strings of its width, at the value its read gives for them. This is the
    one place where a bounds check meets an unchecked read: the read is known to be good for `width`
    bytes, and the check makes sure that they are there. -/
theorem wordField_recognises {width : Nat} (dec : Bytes → α)
    (hread : ∀ before e t, e.length = width →
      read (before ++ (e ++ t)) before.length = .ok (dec e)) :
    Recognises Failure.IsThrown (wordField width read missing)
      (fun v e => e.length = width ∧ v = dec e) where
  sound {before rest v off} hr := by
    rw [wordField_run, List.length_append] at hr
    by_cases h : before.length + width > before.length + rest.length
    · rw [if_pos h] at hr; cases hr
    · have hlen : (rest.take width).length = width := List.length_take_of_le (by omega)
      have hsplit : rest = rest.take width ++ rest.drop width := (List.take_append_drop _ _).symm
      rw [if_neg h, hsplit, hread before _ _ hlen] at hr
      cases hr
      exact ⟨rest.take width, rest.drop width, hsplit, ⟨hlen, rfl⟩, by simp [hlen]⟩
  complete before t e v he := by
    obtain ⟨hlen, rfl⟩ := he
    rw [wordField_run, if_neg (by simp; omega), hread before e t hlen]
    simp [Except.map, hlen]
  fails {before rest x} hr := by
    rw [wordField_run, List.length_append] at hr
    by_cases h : before.length + width > before.length + rest.length
    · rw [if_pos h] at hr
      cases hr
      trivial
    · have hlen : (rest.take width).length = width := List.length_take_of_le (by omega)
      rw [if_neg h, ← List.take_append_drop width rest, hread before _ _ hlen] at hr
      cases hr

end Fields

theorem u16Field_recognises (missing : String) :
    Recognises Failure.IsThrown (wordField 2 readU16 missing)
      (fun v e => e = beBytes 2 v.toNat) := by
  refine (wordField_recognises (fun e => UInt16.ofNat (beValue e))
    fun before e t he => ?_).congr fun v e => ?_
  · match e, he with
    | [b₀, b₁], _ => exact readU16_append before t b₀ b₁
  · rw [← be_spelling v.toNat_lt]
    refine and_congr_right fun he => ?_
    have hlt := beValue_lt e
    rw [he] at hlt
    rw [← UInt16.toNat_inj, UInt16.toNat_ofNat', Nat.mod_eq_of_lt (b := 2 ^ 16) hlt, eq_comm]

theorem u32Field_recognises (missing : String) :
    Recognises Failure.IsThrown (wordField 4 readU32 missing)
      (fun v e => e = beBytes 4 v.toNat) := by
  refine (wordField_recognises (fun e => UInt32.ofNat (beValue e))
    fun before e t he => ?_).congr fun v e => ?_
  · match e, he with
    | [b₀, b₁, b₂, b₃], _ => exact readU32_append before t b₀ b₁ b₂ b₃
  · rw [← be_spelling v.toNat_lt]
    refine and_congr_right fun he => ?_
    have hlt := beValue_lt e
    rw [he] at hlt
    rw [← UInt32.toNat_inj, UInt32.toNat_ofNat', Nat.mod_eq_of_lt (b := 2 ^ 32) hlt, eq_comm]

theorem u64Field_recognises (missing : String) :
    Recognises Failure.IsThrown (wordField 8 readU64 missing)
      (fun v e => e = leBytes 8 v.toNat) := by
  refine (wordField_recognises (fun e => UInt64.ofNat (leValue e)) readU64_append).congr
    fun v e => ?_
  rw [← le_spelling v.toNat_lt]
  refine and_congr_right fun he => ?_
  have hlt := leValue_lt e
  rw [he] at hlt
  rw [← UInt64.toNat_inj, UInt64.toNat_ofNat', Nat.mod_eq_of_lt (b := 2 ^ 64) hlt, eq_comm]

theorem sliceField_recognises (len : Nat) (missing : String) :
    Recognises Failure.IsThrown (sliceField len missing) (fun v e => e.length = len ∧ v = e) := by
  refine wordField_recognises id fun before e t he => ?_
  subst he
  exact slice_append before e t

/-- A byte that has been checked for already, as the first two of a frame have. -/
theorem nextByte_run (before rest : Bytes) (b : UInt8) :
    (nextByte (before ++ b :: rest)).run before.length = .ok (b, before.length + 1) := by
  have hb := byteAt_append before (b :: rest) 0
  rw [Nat.add_zero, byteAt_cons_zero] at hb
  simp [nextByte, hb]

/-- A single byte. The source checks `off >= size` here and not `off + 1 > size`, so it is not a
    `wordField`, and has its own proof. -/
theorem byteField_recognises (missing : String) :
    Recognises Failure.IsThrown (byteField missing) (fun v e => e = [v]) where
  sound {before rest v off} hr := by
    cases rest with
    | nil => simp [byteField, throwIf] at hr
    | cons b rest =>
      have hlt : ¬before.length ≥ (before ++ b :: rest).length := by simp
      simp only [byteField, StateT.run_bind, StateT.run_get, pure_eq_ok, ok_bind,
        throwIf_not hlt, nextByte_run] at hr
      cases hr
      exact ⟨[v], rest, rfl, rfl, by simp⟩
  complete before t e v he := by
    subst he
    have hlt : ¬before.length ≥ (before ++ v :: t).length := by simp
    simp [byteField, throwIf_not hlt, nextByte_run]
  fails {before rest x} hr := by
    cases rest with
    | nil =>
      simp [byteField, throwIf] at hr
      subst hr
      trivial
    | cons b rest =>
      have hlt : ¬before.length ≥ (before ++ b :: rest).length := by simp
      simp [byteField, throwIf_not hlt, nextByte_run] at hr

/-! ## Writers append their spelling -/

/-- A byte of a word, by shifting and masking, is a digit of its value in base 256. -/
theorem u32_byte (v : UInt32) {k : Nat} (hk : k < 32) :
    ((v >>> UInt32.ofNat k) &&& 0xFF).toUInt8 = UInt8.ofNat (v.toNat / 2 ^ k) := by
  apply UInt8.toNat_inj.mp
  have hk' : (UInt32.ofNat k).toNat % 32 = k := by rw [UInt32.toNat_ofNat']; omega
  rw [UInt32.toNat_toUInt8, UInt32.toNat_and, UInt32.toNat_shiftRight, hk', UInt8.toNat_ofNat',
    Nat.shiftRight_eq_div_pow]
  exact congrArg (· % 2 ^ 8) (Nat.and_two_pow_sub_one_eq_mod _ 8) |>.trans (Nat.mod_mod _ _)

theorem u64_byte (v : UInt64) {k : Nat} (hk : k < 64) :
    ((v >>> UInt64.ofNat k) &&& 0xFF).toUInt8 = UInt8.ofNat (v.toNat / 2 ^ k) := by
  apply UInt8.toNat_inj.mp
  have hk' : (UInt64.ofNat k).toNat % 64 = k := by rw [UInt64.toNat_ofNat']; omega
  rw [UInt64.toNat_toUInt8, UInt64.toNat_and, UInt64.toNat_shiftRight, hk', UInt8.toNat_ofNat',
    Nat.shiftRight_eq_div_pow]
  exact congrArg (· % 2 ^ 8) (Nat.and_two_pow_sub_one_eq_mod _ 8) |>.trans (Nat.mod_mod _ _)

/-- The four bytes are pushed one after the other, the highest first. -/
theorem writeU32_eq (out : Bytes) (v : UInt32) : writeU32 out v = out ++ beBytes 4 v.toNat := by
  have h24 := u32_byte v (k := 24) (by decide)
  have h16 := u32_byte v (k := 16) (by decide)
  have h8 := u32_byte v (k := 8) (by decide)
  have h0 : (v &&& 0xFF).toUInt8 = UInt8.ofNat v.toNat := by
    simpa using u32_byte v (k := 0) (by decide)
  have hbe : beBytes 4 v.toNat = [UInt8.ofNat (v.toNat / 2 ^ 24), UInt8.ofNat (v.toNat / 2 ^ 16),
      UInt8.ofNat (v.toNat / 2 ^ 8), UInt8.ofNat v.toNat] := by
    simp [beBytes, leBytes, Nat.div_div_eq_div_mul]
  rw [hbe, ← h24, ← h16, ← h8, ← h0]
  rfl

/-- Eight bytes, the lowest first: the 64-bit fields are the other way round than all the others. -/
theorem writeU64_eq (out : Bytes) (v : UInt64) : writeU64 out v = out ++ leBytes 8 v.toNat := by
  have hle : leBytes 8 v.toNat = (List.range 8).map fun i =>
      UInt8.ofNat (v.toNat / 2 ^ (i * 8)) := by
    simp [leBytes, List.range_succ, Nat.div_div_eq_div_mul]
  have hmap : (List.range 8).map (fun i => ((v >>> UInt64.ofNat (i * 8)) &&& 0xFF).toUInt8)
      = (List.range 8).map fun i => UInt8.ofNat (v.toNat / 2 ^ (i * 8)) :=
    List.map_congr_left fun i hi => u64_byte v (by have := List.mem_range.mp hi; omega)
  rw [writeU64, hmap, hle]

/-- The narrowing of the length is the one `beBytes` makes. So an entry of 65536 bytes or more is
    written with a length that is too small, and no check is made: `entryBytes` says just what the
    source does. -/
theorem writeEntry_eq (out m : Bytes) : writeEntry out m = out ++ entryBytes m := by
  have hhi : ((UInt16.ofNat m.length) >>> 8).toUInt8 = UInt8.ofNat (m.length / 256) := by
    apply UInt8.toNat_inj.mp
    rw [UInt16.toNat_toUInt8, UInt16.toNat_shiftRight, UInt16.toNat_ofNat', UInt8.toNat_ofNat',
      Nat.shiftRight_eq_div_pow, show (8 : UInt16).toNat % 16 = 8 from rfl]
    omega
  have hlo : ((UInt16.ofNat m.length) &&& 0xFF).toUInt8 = UInt8.ofNat m.length := by
    apply UInt8.toNat_inj.mp
    rw [UInt16.toNat_toUInt8, UInt16.toNat_and, UInt16.toNat_ofNat', UInt8.toNat_ofNat',
      show (0xFF : UInt16).toNat = 2 ^ 8 - 1 from rfl, Nat.and_two_pow_sub_one_eq_mod]
    omega
  simp only [writeEntry, hhi, hlo, entryBytes, beBytes, leBytes]
  simp

theorem foldl_writeEntry (metadata : List Bytes) (out : Bytes) :
    metadata.foldl writeEntry out = out ++ metadata.flatMap entryBytes := by
  induction metadata generalizing out with
  | nil => simp
  | cons m metadata ih => rw [List.foldl_cons, ih, writeEntry_eq]; simp

/-- The narrowing of the payload length is the one `beBytes` makes, too. -/
theorem beBytes_ofNat32 (n : Nat) : beBytes 4 (UInt32.ofNat n).toNat = beBytes 4 n := by
  have h : beValue (beBytes 4 n) = (UInt32.ofNat n).toNat := by
    rw [beValue_beBytes, UInt32.toNat_ofNat', show 256 ^ 4 = 2 ^ 32 from rfl]
  have hb := beBytes_beValue (beBytes 4 n)
  rwa [h, beBytes_length] at hb

theorem writePayload_eq (out p : Bytes) :
    writeU32 out (UInt32.ofNat p.length) ++ p = out ++ payloadBytes p := by
  rw [writeU32_eq, beBytes_ofNat32, payloadBytes, List.append_assoc]

end Messenger
