import Mathlib.Data.Set.Card
import StorageEngine.Common.Checksum
import StorageEngine.Lib.BitField

/-!
# The ids of `generate_uuid`

An id of `src/common/checksum.cpp` prints five fields of its two draws.  Two of them carry a
constant above the bits of the draw, the version and the variant.

* `generateUuid_eq`: the five numbers that are printed.
* `generateUuid_matches`: what may stand at each of the 36 places.
* `generateUuid_eq_iff`: the bits of the draws that an id tells.
-/

namespace StorageEngine

open Lib.BitField

/-! ## The fields -/

theorem toNat_mask {mask : UInt64} {width : ℕ} (hmask : mask.toNat = 2 ^ width - 1) (x : UInt64) :
    (x &&& mask).toNat = field 0 width x.toNat := by
  rw [UInt64.toNat_and, hmask, and_mask]

theorem toNat_cut {shift mask : UInt64} {low width : ℕ} (hshift : shift.toNat % 64 = low)
    (hmask : mask.toNat = 2 ^ width - 1) (x : UInt64) :
    ((x >>> shift) &&& mask).toNat = field low width x.toNat := by
  rw [UInt64.toNat_and, UInt64.toNat_shiftRight, hshift, hmask, shiftRight_and_mask]

/-- `static_cast<uint16_t>(cut) & mask | bit`: the mask keeps the low part of the field, and the
bit stands above it. -/
theorem toNat_stamp {cut : UInt64} {mask bit : UInt32} {low width position n : ℕ}
    (hcut : cut.toNat = field low 16 n) (hmask : mask.toNat = 2 ^ width - 1)
    (hbit : bit.toNat = 2 ^ position) (hwidth : width ≤ 16) (hposition : width ≤ position) :
    ((cut.toUInt16.toUInt32 &&& mask) ||| bit).toNat = field low width n + 2 ^ position := by
  have hlow : field low width n < 2 ^ position :=
    (field_lt low width n).trans_le (Nat.pow_le_pow_right (by decide) hposition)
  rw [UInt32.toNat_or, UInt32.toNat_and, UInt16.toNat_toUInt32, UInt64.toNat_toUInt16, hcut,
    Nat.mod_eq_of_lt (field_lt low 16 n), hmask, hbit, and_mask, field_field hwidth,
    Nat.or_two_pow_eq_add_of_lt hlow]

/-- The numbers in the fields of an id. -/
theorem generateUuid_eq (a b : UInt64) :
    generateUuid a b =
      setwHex 8 (field 32 32 a.toNat) ++ str "-" ++ setwHex 4 (field 16 16 a.toNat) ++ str "-" ++
        setwHex 4 (field 0 12 a.toNat + 2 ^ 14) ++ str "-" ++
        setwHex 4 (field 48 14 b.toNat + 2 ^ 15) ++ str "-" ++
        setwHex 12 (field 0 48 b.toNat) := by
  have hfirst : ((a >>> 32) &&& 0xffffffff).toUInt32.toNat = field 32 32 a.toNat := by
    rw [UInt64.toNat_toUInt32, toNat_cut (show _ = 32 from rfl) (show _ = 2 ^ 32 - 1 from rfl),
      Nat.mod_eq_of_lt (field_lt 32 32 _)]
  have hsecond : ((a >>> 16) &&& 0xffff).toUInt16.toNat = field 16 16 a.toNat := by
    rw [UInt64.toNat_toUInt16, toNat_cut (show _ = 16 from rfl) (show _ = 2 ^ 16 - 1 from rfl),
      Nat.mod_eq_of_lt (field_lt 16 16 _)]
  have hlow := toNat_mask (show (0xffff : UInt64).toNat = 2 ^ 16 - 1 from rfl) a
  have hthird := toNat_stamp hlow (show (0x0fff : UInt32).toNat = 2 ^ 12 - 1 from rfl)
    (show (0x4000 : UInt32).toNat = 2 ^ 14 from rfl) (by decide) (by decide)
  have hfourth := toNat_stamp
    (toNat_cut (show (48 : UInt64).toNat % 64 = 48 from rfl)
      (show (0xffff : UInt64).toNat = 2 ^ 16 - 1 from rfl) b)
    (show (0x3fff : UInt32).toNat = 2 ^ 14 - 1 from rfl)
    (show (0x8000 : UInt32).toNat = 2 ^ 15 from rfl) (by decide) (by decide)
  have hfifth := toNat_mask (show (0xffffffffffff : UInt64).toNat = 2 ^ 48 - 1 from rfl) b
  rw [generateUuid, hfirst, hsecond, hthird, hfourth, hfifth]

/-! ## The form -/

def hexAlphabet : Str := str "0123456789abcdef"

/-- What may stand at each place of an id. -/
def uuidPattern : List Str :=
  List.replicate 8 hexAlphabet ++ [str "-"] ++ List.replicate 4 hexAlphabet ++ [str "-"] ++
    (str "4" :: List.replicate 3 hexAlphabet) ++ [str "-"] ++
    (str "89ab" :: List.replicate 3 hexAlphabet) ++ [str "-"] ++ List.replicate 12 hexAlphabet

/-- The string has a character that may stand there at each place of the pattern. -/
def Matches (pattern : List Str) (s : Str) : Prop :=
  List.Forall₂ (fun allowed c => c ∈ allowed) pattern s

instance (pattern : List Str) (s : Str) : Decidable (Matches pattern s) :=
  inferInstanceAs (Decidable (List.Forall₂ _ pattern s))

theorem Matches.append {pattern pattern' : List Str} {s s' : Str} (h : Matches pattern s)
    (h' : Matches pattern' s') : Matches (pattern ++ pattern') (s ++ s') :=
  List.rel_append h h'

theorem Matches.mem {pattern : List Str} {s : Str} (h : Matches pattern s) {c : UInt8}
    (hc : c ∈ s) : ∃ allowed ∈ pattern, c ∈ allowed := by
  induction h with
  | nil => exact absurd hc List.not_mem_nil
  | cons hfirst _ ih =>
    rcases List.mem_cons.mp hc with hhead | htail
    · exact ⟨_, List.mem_cons_self, hhead ▸ hfirst⟩
    · obtain ⟨allowed, hmem, hallowed⟩ := ih htail
      exact ⟨allowed, List.mem_cons_of_mem _ hmem, hallowed⟩

theorem hexChar_mem {digit : ℕ} (hdigit : digit < 16) : hexChar digit ∈ hexAlphabet := by
  have hdigits : ∀ d : Fin 16, hexChar d ∈ hexAlphabet := by decide
  exact hdigits ⟨digit, hdigit⟩

/-- A number that fits its field, by what its first digit may be. -/
theorem matches_setwHex {width n : ℕ} {leading : Str} (hn : n < 16 ^ (width + 1))
    (hleading : hexChar (n / 16 ^ width) ∈ leading) :
    Matches (leading :: List.replicate width hexAlphabet) (setwHex (width + 1) n) := by
  induction width generalizing n with
  | zero =>
    have hdigits : ∀ d : Fin 16, setwHex 1 d = [hexChar d] := by decide
    have hone : setwHex (0 + 1) n = [hexChar n] := hdigits ⟨n, hn⟩
    rw [Nat.pow_zero, Nat.div_one] at hleading
    rw [hone]
    exact .cons hleading .nil
  | succ width ih =>
    rw [Nat.pow_succ'] at hn hleading
    rw [← Nat.div_div_eq_div_mul] at hleading
    have hhigh := ih (show n / 16 < 16 ^ (width + 1) by omega) hleading
    have hlow : Matches [hexAlphabet] [hexChar (n % 16)] :=
      .cons (hexChar_mem (Nat.mod_lt _ (by decide))) .nil
    rw [setwHex_succ (Nat.succ_pos width), List.replicate_succ', ← List.cons_append]
    exact hhigh.append hlow

/-- A field without a constant in it. -/
theorem matches_hexAlphabet {width n : ℕ} (hn : n < 16 ^ (width + 1)) :
    Matches (List.replicate (width + 1) hexAlphabet) (setwHex (width + 1) n) := by
  have hdigit : n / 16 ^ width < 16 := by
    rw [Nat.pow_succ] at hn
    exact Nat.div_lt_of_lt_mul hn
  exact matches_setwHex hn (hexChar_mem hdigit)

/-- The fields are as wide as what is printed in them. -/
theorem fields_lt (a b : UInt64) :
    field 32 32 a.toNat < 16 ^ 8 ∧ field 16 16 a.toNat < 16 ^ 4 ∧
      field 0 12 a.toNat + 2 ^ 14 < 16 ^ 4 ∧ field 48 14 b.toNat + 2 ^ 15 < 16 ^ 4 ∧
      field 0 48 b.toNat < 16 ^ 12 := by
  have hfirst := field_lt 32 32 a.toNat
  have hsecond := field_lt 16 16 a.toNat
  have hthird := field_lt 0 12 a.toNat
  have hfourth := field_lt 48 14 b.toNat
  have hfifth := field_lt 0 48 b.toNat
  omega

theorem generateUuid_matches (a b : UInt64) : Matches uuidPattern (generateUuid a b) := by
  obtain ⟨hfirst, hsecond, hthird, hfourth, hfifth⟩ := fields_lt a b
  have hdash : Matches [str "-"] (str "-") := by decide
  have hversion : hexChar ((field 0 12 a.toNat + 2 ^ 14) / 16 ^ 3) ∈ str "4" := by
    have hdigit : (field 0 12 a.toNat + 2 ^ 14) / 16 ^ 3 = 4 := by
      have hlow := field_lt 0 12 a.toNat
      omega
    rw [hdigit]
    decide
  have hvariant : hexChar ((field 48 14 b.toNat + 2 ^ 15) / 16 ^ 3) ∈ str "89ab" := by
    have hdigits : ∀ d : Fin 4, hexChar (d + 8) ∈ str "89ab" := by decide
    have hdigit : (field 48 14 b.toNat + 2 ^ 15) / 16 ^ 3 = field 48 14 b.toNat / 16 ^ 3 + 8 := by
      omega
    have hlow := field_lt 48 14 b.toNat
    rw [hdigit]
    exact hdigits ⟨field 48 14 b.toNat / 16 ^ 3, by omega⟩
  rw [generateUuid_eq]
  exact ((((((((matches_hexAlphabet hfirst).append hdash).append
    (matches_hexAlphabet hsecond)).append hdash).append
    (matches_setwHex hthird hversion)).append hdash).append
    (matches_setwHex hfourth hvariant)).append hdash).append (matches_hexAlphabet hfifth)

example : Matches uuidPattern (str "01234567-89ab-4def-8123-456789abcdef") := by decide

example : ¬Matches uuidPattern (str "01234567-89ab-1def-8123-456789abcdef") := by decide

/-- An id has 36 characters. -/
@[simp] theorem generateUuid_length (a b : UInt64) : (generateUuid a b).length = 36 :=
  (generateUuid_matches a b).length_eq.symm

/-- An id is usable as a plain file name. -/
theorem generateUuid_plain (a b : UInt64) :
    PlainName (generateUuid a b) ∧ generateUuid a b ≠ str "." ∧ generateUuid a b ≠ str ".." := by
  have hpattern : ∀ allowed ∈ uuidPattern, 47 ∉ allowed ∧ 0 ∉ allowed := by decide
  have hlength := generateUuid_length a b
  refine ⟨⟨?_, ?_⟩, ?_, ?_⟩
  · intro hslash
    obtain ⟨allowed, hmem, hc⟩ := (generateUuid_matches a b).mem hslash
    exact (hpattern allowed hmem).1 hc
  · intro hnul
    obtain ⟨allowed, hmem, hc⟩ := (generateUuid_matches a b).mem hnul
    exact (hpattern allowed hmem).2 hc
  · intro hdot
    rw [hdot] at hlength
    exact absurd hlength (by decide)
  · intro hdots
    rw [hdots] at hlength
    exact absurd hlength (by decide)

/-! ## The bits -/

/-- The last field of a string is told by it. -/
theorem append_field_inj {width n m : ℕ} (hn : n < 16 ^ (width + 1)) (hm : m < 16 ^ (width + 1))
    (p q : Str) :
    p ++ str "-" ++ setwHex (width + 1) n = q ++ str "-" ++ setwHex (width + 1) m ↔
      p = q ∧ n = m := by
  constructor
  · intro h
    obtain ⟨hrest, hfield⟩ := List.append_inj' h (by
      rw [setwHex_length (Nat.succ_pos width) hn, setwHex_length (Nat.succ_pos width) hm])
    exact ⟨List.append_cancel_right hrest, setwHex_inj hn hm hfield⟩
  · intro h
    rw [h.1, h.2]

theorem generateUuid_eq_iff_fields (a b a' b' : UInt64) :
    generateUuid a b = generateUuid a' b' ↔
      (field 32 32 a.toNat = field 32 32 a'.toNat ∧
        field 16 16 a.toNat = field 16 16 a'.toNat) ∧
      field 0 12 a.toNat = field 0 12 a'.toNat ∧
      field 48 14 b.toNat = field 48 14 b'.toNat ∧ field 0 48 b.toNat = field 0 48 b'.toNat := by
  obtain ⟨hfirst, hsecond, hthird, hfourth, hfifth⟩ := fields_lt a b
  obtain ⟨hfirst', hsecond', hthird', hfourth', hfifth'⟩ := fields_lt a' b'
  have hleading : setwHex 8 (field 32 32 a.toNat) = setwHex 8 (field 32 32 a'.toNat) ↔
      field 32 32 a.toNat = field 32 32 a'.toNat :=
    ⟨setwHex_inj hfirst hfirst', congrArg _⟩
  rw [generateUuid_eq, generateUuid_eq, append_field_inj hfifth hfifth',
    append_field_inj hfourth hfourth', append_field_inj hthird hthird',
    append_field_inj hsecond hsecond', hleading, Nat.add_right_cancel_iff,
    Nat.add_right_cancel_iff]
  simp only [and_assoc]

/-- The last field of an id is the low part of the second draw. -/
theorem generateUuid_inj {a b a' b' : UInt64} (h : generateUuid a b = generateUuid a' b') :
    b.toNat % 2 ^ 48 = b'.toNat % 2 ^ 48 := by
  obtain ⟨_, _, _, hlow⟩ := (generateUuid_eq_iff_fields a b a' b').mp h
  rw [field, field, Nat.pow_zero, Nat.div_one, Nat.div_one] at hlow
  exact hlow

/-- An id tells the bits of the draws but for six: bits 15 to 12 of the one, where the version
is printed, and bits 63 and 62 of the other, where the variant is. -/
theorem generateUuid_eq_iff (a b a' b' : UInt64) :
    generateUuid a b = generateUuid a' b' ↔
      SameBits 63 16 a.toNat a'.toNat ∧ SameBits 11 0 a.toNat a'.toNat ∧
        SameBits 61 0 b.toNat b'.toNat := by
  have hhigh : SameBits 63 16 a.toNat a'.toNat ↔
      SameBits 63 32 a.toNat a'.toNat ∧ SameBits 31 16 a.toNat a'.toNat :=
    sameBits_split (by decide) (by decide)
  have hlow : SameBits 61 0 b.toNat b'.toNat ↔
      SameBits 61 48 b.toNat b'.toNat ∧ SameBits 47 0 b.toNat b'.toNat :=
    sameBits_split (by decide) (by decide)
  rw [generateUuid_eq_iff_fields, hhigh, hlow, field_eq_iff (show 63 + 1 = 32 + 32 from rfl),
    field_eq_iff (show 31 + 1 = 16 + 16 from rfl), field_eq_iff (show 11 + 1 = 0 + 12 from rfl),
    field_eq_iff (show 61 + 1 = 48 + 14 from rfl), field_eq_iff (show 47 + 1 = 0 + 48 from rfl)]

/-- Draws with these 122 bits and zeros at the other six. -/
def drawsOf (bits : Fin (2 ^ 48) × Fin (2 ^ 12) × Fin (2 ^ 62)) : UInt64 × UInt64 :=
  (UInt64.ofNat (bits.1.val * 2 ^ 16 + bits.2.1.val), UInt64.ofNat bits.2.2.val)

theorem toNat_drawsOf (bits : Fin (2 ^ 48) × Fin (2 ^ 12) × Fin (2 ^ 62)) :
    (drawsOf bits).1.toNat = bits.1.val * 2 ^ 16 + bits.2.1.val ∧
      (drawsOf bits).2.toNat = bits.2.2.val := by
  obtain ⟨⟨x, hx⟩, ⟨y, hy⟩, ⟨z, hz⟩⟩ := bits
  simp only [drawsOf, UInt64.toNat_ofNat']
  omega

theorem drawsOf_injective :
    Function.Injective fun bits => generateUuid (drawsOf bits).1 (drawsOf bits).2 := by
  intro bits bits' h
  obtain ⟨hfirst, hsecond⟩ := toNat_drawsOf bits
  obtain ⟨hfirst', hsecond'⟩ := toNat_drawsOf bits'
  have hfields := (generateUuid_eq_iff_fields _ _ _ _).mp h
  rw [hfirst, hsecond, hfirst', hsecond'] at hfields
  obtain ⟨⟨x, hx⟩, ⟨y, hy⟩, ⟨z, hz⟩⟩ := bits
  obtain ⟨⟨x', hx'⟩, ⟨y', hy'⟩, ⟨z', hz'⟩⟩ := bits'
  simp only [field] at hfields
  have hhigh : x = x' := by omega
  have hlow : y = y' := by omega
  have hlast : z = z' := by omega
  subst hhigh hlow hlast
  rfl

/-- Every id comes from such draws. -/
theorem range_drawsOf :
    (Set.range fun bits => generateUuid (drawsOf bits).1 (drawsOf bits).2) =
      Set.range fun draws : UInt64 × UInt64 => generateUuid draws.1 draws.2 := by
  apply Set.Subset.antisymm
  · intro id hid
    obtain ⟨bits, rfl⟩ := hid
    exact ⟨drawsOf bits, rfl⟩
  · intro id hid
    obtain ⟨⟨a, b⟩, rfl⟩ := hid
    have ha := a.toNat_lt
    refine ⟨(⟨a.toNat / 2 ^ 16, by omega⟩, ⟨a.toNat % 2 ^ 12, by omega⟩,
      ⟨b.toNat % 2 ^ 62, by omega⟩), ?_⟩
    apply (generateUuid_eq_iff_fields _ _ _ _).mpr
    rw [(toNat_drawsOf _).1, (toNat_drawsOf _).2]
    simp only [field]
    omega

/-- There are `2 ^ 122` ids. -/
theorem card_generateUuid :
    (Set.range fun draws : UInt64 × UInt64 => generateUuid draws.1 draws.2).ncard = 2 ^ 122 := by
  rw [← range_drawsOf, ← Nat.card_coe_set_eq,
    ← Nat.card_congr (Equiv.ofInjective _ drawsOf_injective), Nat.card_prod, Nat.card_prod,
    Nat.card_fin, Nat.card_fin, Nat.card_fin]
  norm_num

/-- What an id looks like and what it tells of its draws: 122 bits. -/
theorem generateUuid_information :
    (∀ a b, (generateUuid a b).length = 36 ∧ Matches uuidPattern (generateUuid a b) ∧
      PlainName (generateUuid a b) ∧ generateUuid a b ≠ str "." ∧
      generateUuid a b ≠ str "..") ∧
    (∀ a b a' b', generateUuid a b = generateUuid a' b' ↔
      SameBits 63 16 a.toNat a'.toNat ∧ SameBits 11 0 a.toNat a'.toNat ∧
        SameBits 61 0 b.toNat b'.toNat) ∧
    (Set.range fun draws : UInt64 × UInt64 => generateUuid draws.1 draws.2).ncard = 2 ^ 122 :=
  ⟨fun a b => ⟨generateUuid_length a b, generateUuid_matches a b, generateUuid_plain a b⟩,
    generateUuid_eq_iff, card_generateUuid⟩

end StorageEngine
