import Mathlib.Analysis.SpecialFunctions.Pow.Real
import Mathlib.Data.Nat.Nth
import Mathlib.Data.Nat.Prime.Basic
import Mathlib.Tactic.IntervalCases
import Mathlib.Tactic.NormNum.Prime
import StorageEngine.Lib.BigEndian

/-!
# SHA-256

FIPS 180-4 for SHA-256, on bit strings and 32-bit words.  The section numbers are those of
the standard.  The constants are what the standard says they are: the first 32 bits of the
fractional parts of roots of primes.  `rootBits_eq` computes them.
-/

namespace Lib.Sha256

abbrev Word := BitVec 32

/-! ## Functions (4.1.2) -/

def ch (x y z : Word) : Word := (x &&& y) ^^^ (~~~x &&& z)

def maj (x y z : Word) : Word := (x &&& y) ^^^ (x &&& z) ^^^ (y &&& z)

def bigSigma0 (x : Word) : Word := x.rotateRight 2 ^^^ x.rotateRight 13 ^^^ x.rotateRight 22

def bigSigma1 (x : Word) : Word := x.rotateRight 6 ^^^ x.rotateRight 11 ^^^ x.rotateRight 25

def smallSigma0 (x : Word) : Word := x.rotateRight 7 ^^^ x.rotateRight 18 ^^^ (x >>> 3)

def smallSigma1 (x : Word) : Word := x.rotateRight 17 ^^^ x.rotateRight 19 ^^^ (x >>> 10)

/-! ## Constants (4.2.2, 5.3.3) -/

/-- The first 32 bits of the fractional part of the `n`-th root of `p`. -/
noncomputable def rootBits (n p : ℕ) : ℕ :=
  ⌊Int.fract ((p : ℝ) ^ ((n : ℝ)⁻¹)) * 2 ^ 32⌋₊

/-- From the cube roots of the first primes. -/
noncomputable def K (t : ℕ) : Word :=
  BitVec.ofNat 32 (rootBits 3 (Nat.nth Nat.Prime t))

/-- From the square roots of the first primes. -/
noncomputable def H0 (i : ℕ) : Word :=
  BitVec.ofNat 32 (rootBits 2 (Nat.nth Nat.Prime i))

/-! ## Preprocessing (5.1.1, 5.2.1) -/

/-- The bits of a word, most significant first. -/
def bitsOf {w : ℕ} (x : BitVec w) : List Bool :=
  (List.range w).map x.getMsbD

/-- The number that some bits spell. -/
def valueOf (bits : List Bool) : ℕ :=
  bits.foldl (fun n b => 2 * n + b.toNat) 0

theorem exists_zeroBits (l : ℕ) : ∃ k, (l + 1 + k) % 512 = 448 :=
  ⟨(447 + 511 * l) % 512, by omega⟩

/-- The smallest `k` with `l + 1 + k ≡ 448 mod 512`. -/
def zeroBits (l : ℕ) : ℕ :=
  Nat.find (exists_zeroBits l)

def pad (m : List Bool) : List Bool :=
  m ++ true :: List.replicate (zeroBits m.length) false ++ bitsOf (BitVec.ofNat 64 m.length)

/-- Word `j` of block `i`. -/
def blockWord (m : List Bool) (i j : ℕ) : Word :=
  BitVec.ofNat 32 (valueOf ((m.drop (512 * i + 32 * j)).take 32))

/-! ## Hash computation (6.2.2) -/

/-- The message schedule of the words of a block. -/
def schedule (M : ℕ → Word) (t : ℕ) : Word :=
  if t < 16 then M t
  else
    smallSigma1 (schedule M (t - 2)) + schedule M (t - 7) + smallSigma0 (schedule M (t - 15)) +
      schedule M (t - 16)
termination_by t

/-- The working variables, and the hash values. -/
structure Variables where
  a : Word
  b : Word
  c : Word
  d : Word
  e : Word
  f : Word
  g : Word
  h : Word

def round (k w : Word) (v : Variables) : Variables :=
  let T1 := v.h + bigSigma1 v.e + ch v.e v.f v.g + k + w
  let T2 := bigSigma0 v.a + maj v.a v.b v.c
  { a := T1 + T2, b := v.a, c := v.b, d := v.c, e := v.d + T1, f := v.e, g := v.f, h := v.g }

/-- The working variables after some rounds. -/
noncomputable def rounds (W : ℕ → Word) (v : Variables) : ℕ → Variables
  | 0 => v
  | t + 1 => round (K t) (W t) (rounds W v t)

noncomputable def compress (M : ℕ → Word) (H : Variables) : Variables :=
  let v := rounds (schedule M) H 64
  { a := v.a + H.a, b := v.b + H.b, c := v.c + H.c, d := v.d + H.d
    e := v.e + H.e, f := v.f + H.f, g := v.g + H.g, h := v.h + H.h }

noncomputable def initialHash : Variables :=
  { a := H0 0, b := H0 1, c := H0 2, d := H0 3, e := H0 4, f := H0 5, g := H0 6, h := H0 7 }

/-- The hash value after some blocks of a padded message. -/
noncomputable def hashAfter (m : List Bool) : ℕ → Variables
  | 0 => initialHash
  | i + 1 => compress (blockWord m i) (hashAfter m i)

def Variables.words (v : Variables) : List Word :=
  [v.a, v.b, v.c, v.d, v.e, v.f, v.g, v.h]

/-- The digest of a message. -/
noncomputable def digest (m : List Bool) : List Bool :=
  (hashAfter (pad m) ((pad m).length / 512)).words.flatMap bitsOf

/-- The lower-case hexadecimal rendering of a bit string. -/
def hex : List Bool → List Char
  | a :: b :: c :: d :: rest => Nat.digitChar (valueOf [a, b, c, d]) :: hex rest
  | _ => []

/-! ## Roots of primes -/

/-- The bits of a root are found with integers: `q` is the integer part. -/
theorem rootBits_eq {n p q c : ℕ} (hn : n ≠ 0) (hc : c < 2 ^ 32)
    (hlow : (q * 2 ^ 32 + c) ^ n ≤ p * 2 ^ (32 * n))
    (hhigh : p * 2 ^ (32 * n) < (q * 2 ^ 32 + c + 1) ^ n) : rootBits n p = c := by
  unfold rootBits
  set y : ℝ := (p : ℝ) ^ ((n : ℝ)⁻¹) with hy
  have hroot : y ^ n = p := Real.rpow_inv_natCast_pow (Nat.cast_nonneg p) hn
  have hscaled : (y * 2 ^ 32) ^ n = ((p * 2 ^ (32 * n) : ℕ) : ℝ) := by
    rw [mul_pow, hroot, ← pow_mul]
    push_cast
    rfl
  have hypos : 0 ≤ y * 2 ^ 32 := by positivity
  have hle : ((q * 2 ^ 32 + c : ℕ) : ℝ) ≤ y * 2 ^ 32 := by
    rw [← pow_le_pow_iff_left₀ (Nat.cast_nonneg _) hypos hn, hscaled]
    exact_mod_cast hlow
  have hlt : y * 2 ^ 32 < ((q * 2 ^ 32 + c + 1 : ℕ) : ℝ) := by
    rw [← pow_lt_pow_iff_left₀ hypos (Nat.cast_nonneg _) hn, hscaled]
    exact_mod_cast hhigh
  push_cast at hle hlt
  have hcle : (c : ℝ) + 1 ≤ 2 ^ 32 := by exact_mod_cast hc
  have hfloor : ⌊y⌋ = (q : ℤ) := by
    rw [Int.floor_eq_iff]
    push_cast
    constructor <;> nlinarith
  have hfract : Int.fract y * 2 ^ 32 = y * 2 ^ 32 - q * 2 ^ 32 := by
    rw [Int.fract, hfloor]
    push_cast
    ring
  rw [hfract, Nat.floor_eq_iff (by linarith)]
  constructor <;> linarith

/-- Trial division by the primes below 19. -/
def trial (n : ℕ) : Bool :=
  decide (2 ≤ n) && [2, 3, 5, 7, 11, 13, 17].all fun d => n == d || n % d != 0

theorem trial_iff {n : ℕ} (hn : n < 361) : trial n = true ↔ n.Prime := by
  have htrial : trial n = true ↔ 2 ≤ n ∧ ∀ d ∈ [2, 3, 5, 7, 11, 13, 17], n = d ∨ n % d ≠ 0 := by
    simp [trial]
  rw [htrial]
  constructor
  · intro h
    obtain ⟨htwo, hdivisors⟩ := h
    by_contra hcomposite
    -- the smallest factor is below 19
    have hsquare := Nat.minFac_sq_le_self (by omega) hcomposite
    have hsmall : n.minFac < 19 := by nlinarith
    have hprime := Nat.minFac_prime (show n ≠ 1 by omega)
    have hmod := Nat.mod_eq_zero_of_dvd n.minFac_dvd
    have hne : n ≠ n.minFac := fun heq => hcomposite (heq ▸ hprime)
    have hmem : n.minFac ∈ [2, 3, 5, 7, 11, 13, 17] := by
      generalize n.minFac = d at hsmall hprime
      interval_cases d <;> first | decide | norm_num at hprime
    exact (hdivisors _ hmem).elim hne fun hrest => hrest hmod
  · intro h
    refine ⟨h.two_le, fun d hd => ?_⟩
    by_cases hdvd : d ∣ n
    · rcases (Nat.dvd_prime h).mp hdvd with rfl | rfl
      · simp at hd
      · exact .inl rfl
    · exact .inr fun hmod => hdvd (Nat.dvd_of_mod_eq_zero hmod)

/-- The primes below 361 are counted by trial division. -/
theorem nth_prime_eq {p i : ℕ} (hp : p < 361) (hprime : trial p = true)
    (hcount : Nat.count (fun n => trial n = true) p = i) : Nat.nth Nat.Prime i = p := by
  have hsame : ∀ m ≤ p, Nat.count Nat.Prime m = Nat.count (fun n => trial n = true) m := by
    intro m hm
    induction m with
    | zero => rfl
    | succ m ih =>
      rw [Nat.count_succ, Nat.count_succ, ih (by omega)]
      simp only [trial_iff (show m < 361 by omega)]
  rw [← hcount, ← hsame p le_rfl]
  exact Nat.nth_count ((trial_iff hp).mp hprime)

/-! ## Bits and bytes -/

theorem valueOf_concat (bits : List Bool) (b : Bool) :
    valueOf (bits ++ [b]) = 2 * valueOf bits + b.toNat := by
  simp [valueOf]

theorem valueOf_append (bits bits' : List Bool) :
    valueOf (bits ++ bits') = valueOf bits * 2 ^ bits'.length + valueOf bits' := by
  induction bits' using List.reverseRecOn with
  | nil => simp [valueOf]
  | append_singleton bits' b ih =>
    rw [← List.append_assoc, valueOf_concat, valueOf_concat, ih, List.length_append,
      List.length_singleton, pow_succ]
    ring

theorem valueOf_lt (bits : List Bool) : valueOf bits < 2 ^ bits.length := by
  induction bits using List.reverseRecOn with
  | nil => decide
  | append_singleton bits b ih =>
    have hb := b.toNat_lt
    rw [valueOf_concat, List.length_append, List.length_singleton, pow_succ]
    omega

/-- Bit strings of one length that spell the same number are the same. -/
theorem valueOf_inj {bits bits' : List Bool} (hlength : bits.length = bits'.length)
    (h : valueOf bits = valueOf bits') : bits = bits' := by
  induction bits using List.reverseRecOn generalizing bits' with
  | nil => exact (List.length_eq_zero_iff.mp hlength.symm).symm
  | append_singleton bits b ih =>
    cases bits' using List.reverseRecOn with
    | nil => simp at hlength
    | append_singleton bits' b' =>
      have hb := b.toNat_lt
      have hb' := b'.toNat_lt
      rw [valueOf_concat, valueOf_concat] at h
      simp only [List.length_append, List.length_singleton, Nat.add_right_cancel_iff] at hlength
      have hlast : b.toNat = b'.toNat := by omega
      have hsame : b = b' := by cases b <;> cases b' <;> simp at hlast ⊢
      rw [ih hlength (by omega), hsame]

@[simp] theorem length_bitsOf {w : ℕ} (x : BitVec w) : (bitsOf x).length = w := by
  simp [bitsOf]

theorem valueOf_bitsOf {w : ℕ} (x : BitVec w) : valueOf (bitsOf x) = x.toNat := by
  have hhigh : ∀ n ≤ w, valueOf ((List.range n).map x.getMsbD) = x.toNat / 2 ^ (w - n) := by
    intro n hn
    induction n with
    | zero => exact (Nat.div_eq_of_lt x.isLt).symm
    | succ n ih =>
      have hbit : (x.getMsbD n).toNat = x.toNat / 2 ^ (w - (n + 1)) % 2 := by
        rw [BitVec.getMsbD_eq_getLsbD, decide_eq_true (show n < w by omega), Bool.true_and,
          BitVec.getLsbD, Nat.testBit_eq_decide_div_mod_eq, Nat.sub_sub, Nat.add_comm 1 n]
        rcases Nat.mod_two_eq_zero_or_one (x.toNat / 2 ^ (w - (n + 1))) with h | h <;> simp [h]
      have hpow : 2 ^ (w - n) = 2 ^ (w - (n + 1)) * 2 := by
        rw [← pow_succ]
        congr 1
        omega
      rw [List.range_succ, List.map_append, List.map_singleton, valueOf_concat, ih (by omega),
        hbit, hpow, ← Nat.div_div_eq_div_mul]
      omega
  have hall := hhigh w le_rfl
  rwa [Nat.sub_self, pow_zero, Nat.div_one] at hall

/-- The bits of some bytes. -/
def ofBytes (bytes : List UInt8) : List Bool :=
  bytes.flatMap fun b => bitsOf b.toBitVec

theorem ofBytes_append (bytes bytes' : List UInt8) :
    ofBytes (bytes ++ bytes') = ofBytes bytes ++ ofBytes bytes' :=
  List.flatMap_append

@[simp] theorem length_ofBytes (bytes : List UInt8) :
    (ofBytes bytes).length = 8 * bytes.length := by
  induction bytes with
  | nil => rfl
  | cons b bytes ih =>
    rw [ofBytes, List.flatMap_cons, List.length_append, length_bitsOf, List.length_cons]
    rw [ofBytes] at ih
    omega

theorem valueOf_ofBytes (bytes : List UInt8) :
    valueOf (ofBytes bytes) = BigEndian.joinBytes bytes := by
  induction bytes using List.reverseRecOn with
  | nil => rfl
  | append_singleton bytes b ih =>
    have hbyte : ofBytes [b] = bitsOf b.toBitVec := by simp [ofBytes]
    rw [ofBytes_append, valueOf_append, ih, hbyte, length_bitsOf, valueOf_bitsOf,
      BigEndian.joinBytes_concat]
    rfl

theorem drop_ofBytes (bytes : List UInt8) (n : ℕ) :
    (ofBytes bytes).drop (8 * n) = ofBytes (bytes.drop n) := by
  rcases Nat.lt_or_ge n bytes.length with hn | hn
  · have hsplit := ofBytes_append (bytes.take n) (bytes.drop n)
    have hlength : (ofBytes (bytes.take n)).length = 8 * n := by
      rw [length_ofBytes, List.length_take, Nat.min_eq_left hn.le]
    rw [List.take_append_drop] at hsplit
    rw [hsplit, ← hlength, List.drop_left]
  · rw [List.drop_eq_nil_of_le hn, List.drop_eq_nil_of_le (by rw [length_ofBytes]; omega)]
    rfl

theorem take_ofBytes (bytes : List UInt8) (n : ℕ) :
    (ofBytes bytes).take (8 * n) = ofBytes (bytes.take n) := by
  have hsplit := ofBytes_append (bytes.take n) (bytes.drop n)
  rw [List.take_append_drop] at hsplit
  rcases Nat.lt_or_ge n bytes.length with hn | hn
  · have hlength : (ofBytes (bytes.take n)).length = 8 * n := by
      rw [length_ofBytes, List.length_take, Nat.min_eq_left hn.le]
    rw [hsplit, ← hlength, List.take_left]
  · rw [List.take_of_length_le hn, List.take_of_length_le (by rw [length_ofBytes]; omega)]

/-- A word of a block is spelled by four bytes. -/
theorem blockWord_ofBytes (bytes : List UInt8) (i j : ℕ) :
    blockWord (ofBytes bytes) i j =
      BitVec.ofNat 32 (BigEndian.joinBytes ((bytes.drop (64 * i + 4 * j)).take 4)) := by
  have hposition : 512 * i + 32 * j = 8 * (64 * i + 4 * j) := by omega
  have hfour : ((ofBytes bytes).drop (512 * i + 32 * j)).take 32 =
      ofBytes ((bytes.drop (64 * i + 4 * j)).take 4) := by
    rw [hposition, drop_ofBytes]
    exact take_ofBytes _ 4
  rw [blockWord, hfour, valueOf_ofBytes]

/-! ## Hexadecimal digits -/

theorem hex_append {n : ℕ} {bits : List Bool} (hbits : bits.length = 4 * n) (bits' : List Bool) :
    hex (bits ++ bits') = hex bits ++ hex bits' := by
  induction n generalizing bits with
  | zero =>
    rw [List.length_eq_zero_iff.mp hbits]
    rfl
  | succ n ih =>
    match bits, hbits with
    | a :: b :: c :: d :: rest, hbits =>
      simp only [List.length_cons] at hbits
      simp only [List.cons_append, hex, ih (show rest.length = 4 * n by omega)]

/-! ## Padding of bytes -/

theorem zeroBits_eq {l k : ℕ} (hk : (l + 1 + k) % 512 = 448) (hlt : k < 512) : zeroBits l = k := by
  rw [zeroBits, Nat.find_eq_iff]
  refine ⟨hk, fun j hj hmod => ?_⟩
  omega

/-! ## The schedule -/

theorem schedule_of_lt (M : ℕ → Word) {t : ℕ} (ht : t < 16) : schedule M t = M t := by
  rw [schedule, if_pos ht]

theorem schedule_of_ge (M : ℕ → Word) {t : ℕ} (ht : 16 ≤ t) :
    schedule M t = smallSigma1 (schedule M (t - 2)) + schedule M (t - 7) +
      smallSigma0 (schedule M (t - 15)) + schedule M (t - 16) := by
  rw [schedule, if_neg (by omega)]

end Lib.Sha256
