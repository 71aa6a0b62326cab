import Mathlib.Data.List.Induction
import Mathlib.Data.Nat.Bitwise
import Mathlib.Tactic.NormNum
import Mathlib.Tactic.Ring

/-!
# Big-endian bytes of fixed-width words

A format that stores words high byte first cuts a word into bytes with a shift
and a mask, and joins the bytes again with shifts and ors.  Both directions
are numbers in base 256: `joinBytes` is the number that a list of bytes
spells, `byteOfU32` and `byteOfU64` say which digit a shift and a mask cut
out, and `joinU32` and `joinU64` say that the ors spell the number without a
wrap.  `digit_step` then climbs from the high digit to the whole word.
`joinBytes_lt_iff` says that words of one length are ordered as their numbers.
-/

namespace Lib.BigEndian

/-- The number that a list of bytes spells in base 256, high byte first. -/
def joinBytes (bytes : List UInt8) : Nat :=
  bytes.foldl (fun n b => n * 256 + b.toNat) 0

theorem joinBytes_concat (bytes : List UInt8) (b : UInt8) :
    joinBytes (bytes ++ [b]) = joinBytes bytes * 256 + b.toNat := by
  simp [joinBytes]

theorem joinBytes_lt (bytes : List UInt8) :
    joinBytes bytes < 256 ^ bytes.length := by
  induction bytes using List.reverseRecOn with
  | nil => decide
  | append_singleton bytes b ih =>
    have hb := b.toNat_lt
    rw [joinBytes_concat, List.length_append, List.length_singleton, pow_succ]
    omega

/-- Bytes of one length that spell the same number are the same. -/
theorem joinBytes_inj {bytes bytes' : List UInt8} (hlength : bytes.length = bytes'.length)
    (h : joinBytes bytes = joinBytes bytes') : bytes = bytes' := by
  induction bytes using List.reverseRecOn generalizing bytes' with
  | nil => exact (List.length_eq_zero_iff.mp hlength.symm).symm
  | append_singleton bytes b ih =>
    cases bytes' using List.reverseRecOn with
    | nil => simp at hlength
    | append_singleton bytes' b' =>
      have hb := b.toNat_lt
      have hb' := b'.toNat_lt
      rw [joinBytes_concat, joinBytes_concat] at h
      simp only [List.length_append, List.length_singleton, Nat.add_right_cancel_iff] at hlength
      rw [ih hlength (by omega), UInt8.toNat_inj.mp (show b.toNat = b'.toNat by omega)]

theorem joinBytes_cons (b : UInt8) (bytes : List UInt8) :
    joinBytes (b :: bytes) = b.toNat * 256 ^ bytes.length + joinBytes bytes := by
  induction bytes using List.reverseRecOn with
  | nil => simp [joinBytes]
  | append_singleton bytes c ih =>
    rw [← List.cons_append, joinBytes_concat, joinBytes_concat, ih, List.length_append,
      List.length_singleton, pow_succ]
    ring

theorem joinBytes_append (bytes bytes' : List UInt8) :
    joinBytes (bytes ++ bytes') = joinBytes bytes * 256 ^ bytes'.length + joinBytes bytes' := by
  induction bytes with
  | nil => simp [joinBytes]
  | cons b bytes ih =>
    rw [List.cons_append, joinBytes_cons, joinBytes_cons, ih, List.length_append, pow_add]
    ring

theorem joinBytes_zeros (n : Nat) : joinBytes (List.replicate n 0) = 0 := by
  induction n with
  | zero => rfl
  | succ n ih => simp [List.replicate_succ, joinBytes_cons, ih]

/-- Bytes of one length are ordered as the numbers that they spell. -/
theorem joinBytes_lt_iff {bytes bytes' : List UInt8} (hlength : bytes.length = bytes'.length) :
    joinBytes bytes < joinBytes bytes' ↔ bytes < bytes' := by
  induction bytes generalizing bytes' with
  | nil =>
    obtain rfl := List.length_eq_zero_iff.mp hlength.symm
    simp
  | cons b bytes ih =>
    cases bytes' with
    | nil => simp at hlength
    | cons b' bytes' =>
      rw [List.length_cons, List.length_cons, Nat.add_right_cancel_iff] at hlength
      have hlt := joinBytes_lt bytes
      have hlt' := joinBytes_lt bytes'
      rw [List.cons_lt_cons_iff, ← ih hlength, joinBytes_cons, joinBytes_cons, ← hlength,
        UInt8.lt_iff_toNat_lt, ← UInt8.toNat_inj]
      rw [← hlength] at hlt'
      rcases Nat.lt_trichotomy b.toNat b'.toNat with h | h | h
      · have hstep := Nat.mul_le_mul_right (256 ^ bytes.length) h
        rw [Nat.succ_mul] at hstep
        omega
      · rw [h]
        omega
      · have hstep := Nat.mul_le_mul_right (256 ^ bytes.length) h
        rw [Nat.succ_mul] at hstep
        omega

/-! ## Cutting a word into bytes -/

theorem byteOfU32 (v i : UInt32) :
    ((v >>> i) &&& 0xff).toUInt8.toNat = v.toNat / 2 ^ (i.toNat % 32) % 256 := by
  rw [UInt32.toNat_toUInt8, UInt32.toNat_and, UInt32.toNat_shiftRight,
    Nat.shiftRight_eq_div_pow, show (0xff : UInt32).toNat = 2 ^ 8 - 1 from rfl,
    Nat.and_two_pow_sub_one_eq_mod, Nat.mod_mod]

theorem byteOfU64 (v i : UInt64) :
    ((v >>> i) &&& 0xff).toUInt8.toNat = v.toNat / 2 ^ (i.toNat % 64) % 256 := by
  rw [UInt64.toNat_toUInt8, UInt64.toNat_and, UInt64.toNat_shiftRight,
    Nat.shiftRight_eq_div_pow, show (0xff : UInt64).toNat = 2 ^ 8 - 1 from rfl,
    Nat.and_two_pow_sub_one_eq_mod, Nat.mod_mod]

/-- Appending digit `i` to the digits above it. -/
theorem digit_step (n i : Nat) :
    n / 2 ^ (i + 8) * 256 + n / 2 ^ i % 256 = n / 2 ^ i := by
  rw [pow_add, ← Nat.div_div_eq_div_mul]
  omega

private theorem joinBytes_eight (f : UInt64 → UInt8) :
    joinBytes (([7, 6, 5, 4, 3, 2, 1, 0] : List UInt64).map f) =
      (((((((0 * 256 + (f 7).toNat) * 256 + (f 6).toNat) * 256 + (f 5).toNat) * 256 +
        (f 4).toNat) * 256 + (f 3).toNat) * 256 + (f 2).toNat) * 256 + (f 1).toNat) * 256 +
        (f 0).toNat := rfl

/-- The eight bytes that a loop cuts out of a 64-bit word spell it. -/
theorem joinBytes_bytesOfU64 (v : UInt64) :
    joinBytes (([7, 6, 5, 4, 3, 2, 1, 0] : List UInt64).map fun i =>
      ((v >>> (i * 8)) &&& 0xff).toUInt8) = v.toNat := by
  have hhigh : v.toNat / 2 ^ 64 = 0 := Nat.div_eq_of_lt v.toNat_lt
  have hbyte : ∀ {i : UInt64} {k : Nat}, (i * 8).toNat % 64 = k →
      ((v >>> (i * 8)) &&& 0xff).toUInt8.toNat = v.toNat / 2 ^ k % 256 := by
    intro i k hk
    rw [byteOfU64, hk]
  calc joinBytes (([7, 6, 5, 4, 3, 2, 1, 0] : List UInt64).map fun i =>
        ((v >>> (i * 8)) &&& 0xff).toUInt8)
      = (((((((v.toNat / 2 ^ 64 * 256 + v.toNat / 2 ^ 56 % 256) * 256 +
          v.toNat / 2 ^ 48 % 256) * 256 + v.toNat / 2 ^ 40 % 256) * 256 +
          v.toNat / 2 ^ 32 % 256) * 256 + v.toNat / 2 ^ 24 % 256) * 256 +
          v.toNat / 2 ^ 16 % 256) * 256 + v.toNat / 2 ^ 8 % 256) * 256 +
          v.toNat / 2 ^ 0 % 256 := by
        rw [joinBytes_eight, hhigh, hbyte (show _ = 56 by decide), hbyte (show _ = 48 by decide),
          hbyte (show _ = 40 by decide), hbyte (show _ = 32 by decide),
          hbyte (show _ = 24 by decide), hbyte (show _ = 16 by decide),
          hbyte (show _ = 8 by decide), hbyte (show _ = 0 by decide)]
    _ = v.toNat / 2 ^ 0 := by simp only [digit_step]
    _ = v.toNat := Nat.div_one _

/-! ## Joining bytes to a word -/

/-- Joining a number and the byte below it. -/
private theorem shiftLeft_or_byte (n : Nat) {b : Nat} (hb : b < 2 ^ 8) :
    n <<< 8 ||| b = n * 256 + b := by
  rw [Nat.shiftLeft_eq, Nat.mul_comm n, ← Nat.two_pow_add_eq_or_of_lt hb]

private theorem shiftLeft_byte_mod (b : UInt8) {i : Nat} (hi : i ≤ 24) :
    b.toNat <<< i % 2 ^ 32 = b.toNat <<< i := by
  apply Nat.mod_eq_of_lt
  rw [Nat.shiftLeft_eq]
  calc b.toNat * 2 ^ i < 2 ^ 8 * 2 ^ i :=
        Nat.mul_lt_mul_of_pos_right b.toNat_lt (by positivity)
    _ = 2 ^ (8 + i) := by rw [← pow_add]
    _ ≤ 2 ^ 32 := Nat.pow_le_pow_right (by decide) (by omega)

/-- Four bytes shifted into place and joined with ors. -/
theorem joinU32 (b0 b1 b2 b3 : UInt8) :
    ((b0.toUInt32 <<< 24) ||| (b1.toUInt32 <<< 16) ||| (b2.toUInt32 <<< 8) |||
        b3.toUInt32).toNat = joinBytes [b0, b1, b2, b3] := by
  simp only [UInt32.toNat_or, UInt32.toNat_shiftLeft, UInt8.toNat_toUInt32]
  calc _ = b0.toNat <<< 24 ||| b1.toNat <<< 16 ||| b2.toNat <<< 8 ||| b3.toNat := by
        rw [← shiftLeft_byte_mod b0 (show 24 ≤ 24 by decide),
          ← shiftLeft_byte_mod b1 (show 16 ≤ 24 by decide),
          ← shiftLeft_byte_mod b2 (show 8 ≤ 24 by decide)]
        rfl
    _ = ((b0.toNat <<< 8 ||| b1.toNat) <<< 8 ||| b2.toNat) <<< 8 ||| b3.toNat := by
        simp only [Nat.shiftLeft_or_distrib, ← Nat.shiftLeft_add]
    _ = ((b0.toNat * 256 + b1.toNat) * 256 + b2.toNat) * 256 + b3.toNat := by
        rw [shiftLeft_or_byte _ b1.toNat_lt, shiftLeft_or_byte _ b2.toNat_lt,
          shiftLeft_or_byte _ b3.toNat_lt]
    _ = joinBytes [b0, b1, b2, b3] := by simp [joinBytes]

/-- A loop that shifts up to eight bytes into a 64-bit word. -/
theorem joinU64 (bytes : List UInt8) (hlen : bytes.length ≤ 8) :
    (bytes.foldl (fun (v : UInt64) b => (v <<< 8) ||| b.toUInt64) 0).toNat =
      joinBytes bytes := by
  induction bytes using List.reverseRecOn with
  | nil => rfl
  | append_singleton bytes b ih =>
    rw [List.length_append, List.length_singleton] at hlen
    have hbound : joinBytes bytes <<< 8 < 2 ^ 64 := by
      rw [Nat.shiftLeft_eq]
      calc joinBytes bytes * 2 ^ 8 < 256 ^ bytes.length * 2 ^ 8 :=
            Nat.mul_lt_mul_of_pos_right (joinBytes_lt bytes) (by decide)
        _ ≤ 256 ^ 7 * 2 ^ 8 :=
            Nat.mul_le_mul_right _ (Nat.pow_le_pow_right (by decide) (by omega))
        _ = 2 ^ 64 := by norm_num
    rw [List.foldl_append, List.foldl_cons, List.foldl_nil, UInt64.toNat_or,
      UInt64.toNat_shiftLeft, ih (by omega), UInt8.toNat_toUInt64,
      joinBytes_concat, show (8 : UInt64).toNat % 64 = 8 from rfl,
      Nat.mod_eq_of_lt hbound]
    exact shiftLeft_or_byte _ b.toNat_lt

end Lib.BigEndian
