import Mathlib.Data.Nat.Digits.Lemmas
import StorageEngine.Common.Types

/-!
# Checksums and identifiers

`src/common/checksum.cpp`: the SHA-256 of the chunk format and the ids of
`generate_uuid`.  The loops over a fixed number of rounds are folds over
`List.range`, and the padding loop carries a fuel argument that it never
exhausts.

* `sha256_length`: a checksum has 64 characters, so its length fits the
  four-byte prefix of the chunk format.
* `setwHex_succ` and `setwHex_inj`: the digits of a field, and the number that
  they spell.
-/

namespace StorageEngine

/-! ## Hexadecimal output -/

/-- One lower-case hexadecimal digit. -/
def hexChar (digit : Nat) : UInt8 :=
  if digit < 10 then UInt8.ofNat (48 + digit) else UInt8.ofNat (87 + digit)

/-- `std::hex << n`. -/
def hexDigits (n : Nat) : Str :=
  if n = 0 then [48] else (Nat.digits 16 n).reverse.map hexChar

/-- `std::hex << std::setfill('0') << std::setw(width) << n`. -/
def setwHex (width n : Nat) : Str :=
  List.replicate (width - (hexDigits n).length) 48 ++ hexDigits n

/-- A number below `16 ^ width` fills its field exactly. -/
theorem setwHex_length {width n : Nat} (hwidth : 0 < width)
    (hn : n < 16 ^ width) : (setwHex width n).length = width := by
  have hdigits : (hexDigits n).length ≤ width := by
    rw [hexDigits]
    split
    · exact hwidth
    · rw [List.length_map, List.length_reverse]
      exact (Nat.digits_length_le_iff (by decide) n).mpr hn
  rw [setwHex, List.length_append, List.length_replicate]
  omega

/-- The last digit of a field. -/
theorem setwHex_succ {width : Nat} (hwidth : 0 < width) (n : Nat) :
    setwHex (width + 1) n = setwHex width (n / 16) ++ [hexChar (n % 16)] := by
  rcases Nat.lt_or_ge n 16 with hsmall | hlarge
  · -- the digits before it are the fill
    have hfield : hexDigits n = [hexChar n] := by
      rw [hexDigits]
      rcases Nat.eq_zero_or_pos n with hzero | hpos
      · rw [if_pos hzero, hzero]
        rfl
      · rw [if_neg hpos.ne', Nat.digits_of_lt 16 n hpos.ne' hsmall]
        rfl
    have hfill : setwHex width 0 = List.replicate width 48 := by
      rw [setwHex, hexDigits, if_pos rfl, List.length_singleton, ← List.replicate_succ',
        Nat.sub_add_cancel hwidth]
    rw [Nat.div_eq_of_lt hsmall, Nat.mod_eq_of_lt hsmall, hfill, setwHex, hfield]
    rfl
  · have hdigits : hexDigits n = hexDigits (n / 16) ++ [hexChar (n % 16)] := by
      rw [hexDigits, if_neg (show n ≠ 0 by omega), hexDigits, if_neg (show n / 16 ≠ 0 by omega),
        Nat.digits_def' (by decide) (show 0 < n by omega), List.reverse_cons, List.map_append]
      rfl
    rw [setwHex, hdigits, List.length_append, List.length_singleton, Nat.add_sub_add_right,
      ← List.append_assoc, ← setwHex]

/-- Numbers that fit a field are told apart by it. -/
theorem setwHex_inj {width n m : Nat} (hn : n < 16 ^ (width + 1)) (hm : m < 16 ^ (width + 1))
    (h : setwHex (width + 1) n = setwHex (width + 1) m) : n = m := by
  have hdigit : ∀ a b : Fin 16, hexChar a = hexChar b → a = b := by decide
  induction width generalizing n m with
  | zero =>
    have hone : ∀ a b : Fin 16, setwHex 1 a = setwHex 1 b → a = b := by decide
    exact Fin.mk.inj (hone ⟨n, hn⟩ ⟨m, hm⟩ h)
  | succ width ih =>
    rw [setwHex_succ (Nat.succ_pos width) n, setwHex_succ (Nat.succ_pos width) m] at h
    obtain ⟨hhigh, hlow⟩ := List.append_inj' h rfl
    have hdiv : n / 16 = m / 16 := by
      refine ih ?_ ?_ hhigh
      · rw [pow_succ] at hn
        omega
      · rw [pow_succ] at hm
        omega
    have hmod := hdigit ⟨n % 16, Nat.mod_lt _ (by decide)⟩ ⟨m % 16, Nat.mod_lt _ (by decide)⟩
      (List.cons.inj hlow).1
    have hsame : n % 16 = m % 16 := Fin.mk.inj hmod
    omega

/-! ## SHA-256 -/

namespace Checksum

/-- The round constants. -/
def k : List UInt32 := [
  0x428a2f98, 0x71374491, 0xb5c0fbcf, 0xe9b5dba5,
  0x3956c25b, 0x59f111f1, 0x923f82a4, 0xab1c5ed5,
  0xd807aa98, 0x12835b01, 0x243185be, 0x550c7dc3,
  0x72be5d74, 0x80deb1fe, 0x9bdc06a7, 0xc19bf174,
  0xe49b69c1, 0xefbe4786, 0x0fc19dc6, 0x240ca1cc,
  0x2de92c6f, 0x4a7484aa, 0x5cb0a9dc, 0x76f988da,
  0x983e5152, 0xa831c66d, 0xb00327c8, 0xbf597fc7,
  0xc6e00bf3, 0xd5a79147, 0x06ca6351, 0x14292967,
  0x27b70a85, 0x2e1b2138, 0x4d2c6dfc, 0x53380d13,
  0x650a7354, 0x766a0abb, 0x81c2c92e, 0x92722c85,
  0xa2bfe8a1, 0xa81a664b, 0xc24b8b70, 0xc76c51a3,
  0xd192e819, 0xd6990624, 0xf40e3585, 0x106aa070,
  0x19a4c116, 0x1e376c08, 0x2748774c, 0x34b0bcb5,
  0x391c0cb3, 0x4ed8aa4a, 0x5b9cca4f, 0x682e6ff3,
  0x748f82ee, 0x78a5636f, 0x84c87814, 0x8cc70208,
  0x90befffa, 0xa4506ceb, 0xbef9a3f7, 0xc67178f2]

def rotr (x n : UInt32) : UInt32 := (x >>> n) ||| (x <<< (32 - n))

/-- The eight working variables of one block, and the running hash. -/
structure HashState where
  a : UInt32
  b : UInt32
  c : UInt32
  d : UInt32
  e : UInt32
  f : UInt32
  g : UInt32
  h : UInt32
  deriving DecidableEq, Repr

/-- `h0` to `h7` before the first block. -/
def initialHash : HashState :=
  ⟨0x6a09e667, 0xbb67ae85, 0x3c6ef372, 0xa54ff53a,
    0x510e527f, 0x9b05688c, 0x1f83d9ab, 0x5be0cd19⟩

/-- `while ((msg.size() % 64) != 56) msg.push_back(0);` -/
def padZeros : Nat → Bytes → Bytes
  | 0, msg => msg
  | fuel + 1, msg =>
    if msg.length % 64 ≠ 56 then padZeros fuel (msg ++ [0]) else msg

/-- The eight big-endian bytes of `bit_len`. -/
def lengthBytes (bitLen : UInt64) : Bytes :=
  ([7, 6, 5, 4, 3, 2, 1, 0] : List UInt64).map fun i =>
    ((bitLen >>> (i * 8)) &&& 0xff).toUInt8

/-- The message with its padding.  At most 63 zero bytes are needed, so 64
turns of the loop are enough. -/
def padMessage (data : Bytes) : Bytes :=
  padZeros 64 (data ++ [0x80]) ++ lengthBytes (UInt64.ofNat data.length * 8)

/-- The big-endian word at position `i` of the message. -/
def messageWord (msg : Bytes) (i : Nat) : UInt32 :=
  ((msg.getD i 0).toUInt32 <<< 24) ||| ((msg.getD (i + 1) 0).toUInt32 <<< 16) |||
    ((msg.getD (i + 2) 0).toUInt32 <<< 8) ||| (msg.getD (i + 3) 0).toUInt32

/-- `w[i]` for `16 ≤ i`, appended to the words before it. -/
def extendSchedule (w : List UInt32) (i : Nat) : List UInt32 :=
  let w15 := w.getD (i - 15) 0
  let w2 := w.getD (i - 2) 0
  let s0 := rotr w15 7 ^^^ rotr w15 18 ^^^ (w15 >>> 3)
  let s1 := rotr w2 17 ^^^ rotr w2 19 ^^^ (w2 >>> 10)
  w ++ [w.getD (i - 16) 0 + s0 + w.getD (i - 7) 0 + s1]

@[simp] theorem length_extendSchedule (w : List UInt32) (i : Nat) :
    (extendSchedule w i).length = w.length + 1 := by
  rw [extendSchedule, List.length_append, List.length_singleton]

/-- The message schedule `w[0..64)` of the block at `offset`. -/
def schedule (msg : Bytes) (offset : Nat) : List UInt32 :=
  (List.range' 16 48).foldl extendSchedule
    ((List.range 16).map fun i => messageWord msg (offset + i * 4))

/-- One of the 64 rounds. -/
def compressRound (w : List UInt32) (s : HashState) (i : Nat) : HashState :=
  let S1 := rotr s.e 6 ^^^ rotr s.e 11 ^^^ rotr s.e 25
  let ch := (s.e &&& s.f) ^^^ (~~~s.e &&& s.g)
  let temp1 := s.h + S1 + ch + k.getD i 0 + w.getD i 0
  let S0 := rotr s.a 2 ^^^ rotr s.a 13 ^^^ rotr s.a 22
  let maj := (s.a &&& s.b) ^^^ (s.a &&& s.c) ^^^ (s.b &&& s.c)
  let temp2 := S0 + maj
  { a := temp1 + temp2, b := s.a, c := s.b, d := s.c
    e := s.d + temp1, f := s.e, g := s.f, h := s.g }

/-- The body of the block loop. -/
def compressBlock (msg : Bytes) (s : HashState) (offset : Nat) : HashState :=
  let r := (List.range 64).foldl (compressRound (schedule msg offset)) s
  { a := s.a + r.a, b := s.b + r.b, c := s.c + r.c, d := s.d + r.d
    e := s.e + r.e, f := s.f + r.f, g := s.g + r.g, h := s.h + r.h }

/-- `for (offset = 0; offset < msg.size(); offset += 64)`. -/
def hashBlocks (msg : Bytes) : HashState :=
  (List.range ((msg.length + 63) / 64)).foldl
    (fun s block => compressBlock msg s (64 * block)) initialHash

/-- The output loop: each word in a field of eight digits. -/
def hexDigest (s : HashState) : Str :=
  [s.a, s.b, s.c, s.d, s.e, s.f, s.g, s.h].flatMap fun v => setwHex 8 v.toNat

/-- `Checksum::sha256`. -/
def sha256 (data : Bytes) : Str := hexDigest (hashBlocks (padMessage data))

/-- `Checksum::verify`. -/
def verify (data : Bytes) (expected : Str) : Bool := sha256 data == expected

private theorem word_field_length (v : UInt32) :
    (setwHex 8 v.toNat).length = 8 :=
  setwHex_length (by decide) v.toNat_lt

/-- A digest has 64 characters. -/
@[simp] theorem sha256_length (data : Bytes) : (sha256 data).length = 64 := by
  simp [sha256, hexDigest, word_field_length]

theorem sha256_ne_nil (data : Bytes) : sha256 data ≠ [] :=
  List.ne_nil_of_length_pos (by rw [sha256_length]; decide)

/-- The checksums of two bytes that the fixtures of other modules store. -/
theorem sha256_eight_ne_seven : sha256 [8] ≠ sha256 [7] := by decide +kernel

@[simp] theorem verify_iff (data : Bytes) (expected : Str) :
    verify data expected = true ↔ sha256 data = expected := by
  simp [verify]

end Checksum

/-! ## Identifiers -/

/-- `generate_uuid`, as a function of its two random draws. -/
def generateUuid (a b : UInt64) : Str :=
  setwHex 8 ((a >>> 32) &&& 0xffffffff).toUInt32.toNat ++ str "-" ++
    setwHex 4 ((a >>> 16) &&& 0xffff).toUInt16.toNat ++ str "-" ++
    setwHex 4 (((a &&& 0xffff).toUInt16.toUInt32 &&& 0x0fff) ||| 0x4000).toNat ++
      str "-" ++
    setwHex 4 ((((b >>> 48) &&& 0xffff).toUInt16.toUInt32 &&& 0x3fff) |||
      0x8000).toNat ++ str "-" ++
    setwHex 12 (b &&& 0xffffffffffff).toNat

/-- A string that names a file of its directory: no separator and no NUL. -/
def PlainName (name : Str) : Prop := 47 ∉ name ∧ 0 ∉ name

instance (name : Str) : Decidable (PlainName name) :=
  inferInstanceAs (Decidable (_ ∧ _))

end StorageEngine
