import StorageEngine.Common.Padding
import StorageEngine.Lib.Sha256

/-!
# `sha256_impl` computes SHA-256

`src/common/checksum.cpp` against the standard in `Lib.Sha256`: the padding in
bytes spells the padding in bits, the 48 turns of the schedule loop and the 64
rounds keep what the recurrences say, and the tables hold the roots of primes.
-/

namespace StorageEngine

namespace Checksum

open Lib Lib.BigEndian

/-! ## Padding -/

theorem ofBytes_zeros (n : Nat) :
    Sha256.ofBytes (List.replicate n 0) = List.replicate (8 * n) false := by
  induction n with
  | zero => rfl
  | succ n ih =>
    have hbyte : Sha256.ofBytes [0] = List.replicate 8 false := by decide
    rw [List.replicate_succ, ← List.singleton_append, Sha256.ofBytes_append, ih, hbyte,
      List.replicate_append_replicate]
    congr 1
    omega

/-- The length bytes spell the length in bits. -/
theorem ofBytes_lengthBytes {length : Nat} (hlength : length < 2 ^ 61) :
    Sha256.ofBytes (lengthBytes (UInt64.ofNat length * 8)) =
      Sha256.bitsOf (BitVec.ofNat 64 (8 * length)) := by
  apply Sha256.valueOf_inj
  · rw [Sha256.length_ofBytes, length_lengthBytes, Sha256.length_bitsOf]
  · have hvalue : (UInt64.ofNat length * 8).toNat = 8 * length := by
      rw [UInt64.toNat_mul, UInt64.toNat_ofNat', show (8 : UInt64).toNat = 8 from rfl]
      omega
    rw [Sha256.valueOf_ofBytes, Sha256.valueOf_bitsOf, lengthBytes, joinBytes_bytesOfU64,
      hvalue, BitVec.toNat_ofNat]
    omega

/-- The bytes of the padded message spell the padding of the standard.  The
seven bits after the first one of `0x80` are zeros of it. -/
theorem ofBytes_padMessage {data : Bytes} (hdata : data.length < 2 ^ 61) :
    Sha256.ofBytes (padMessage data) = Sha256.pad (Sha256.ofBytes data) := by
  have hmark : Sha256.ofBytes [0x80] = true :: List.replicate 7 false := by decide
  have hzeroBits : Sha256.zeroBits (8 * data.length) = 7 + 8 * zeroBytes data.length := by
    apply Sha256.zeroBits_eq <;> (rw [zeroBytes]; omega)
  rw [padMessage_eq, Sha256.ofBytes_append, Sha256.ofBytes_append, Sha256.ofBytes_append,
    ofBytes_zeros, ofBytes_lengthBytes hdata, hmark, Sha256.pad, Sha256.length_ofBytes,
    hzeroBits, ← List.replicate_append_replicate]
  simp only [List.append_assoc, List.cons_append]

/-! ## Words -/

private theorem take_four {msg : Bytes} {n : Nat} (hfit : n + 4 ≤ msg.length) :
    (msg.drop n).take 4 =
      [msg.getD n 0, msg.getD (n + 1) 0, msg.getD (n + 2) 0, msg.getD (n + 3) 0] := by
  rw [List.drop_eq_getElem_cons (show n < msg.length by omega),
    List.drop_eq_getElem_cons (show n + 1 < msg.length by omega),
    List.drop_eq_getElem_cons (show n + 1 + 1 < msg.length by omega),
    List.drop_eq_getElem_cons (show n + 1 + 1 + 1 < msg.length by omega)]
  rw [List.getD_eq_getElem _ _ (show n < msg.length by omega),
    List.getD_eq_getElem _ _ (show n + 1 < msg.length by omega),
    List.getD_eq_getElem _ _ (show n + 2 < msg.length by omega),
    List.getD_eq_getElem _ _ (show n + 3 < msg.length by omega)]
  rfl

/-- Four bytes of the message spell a word of its block. -/
theorem messageWord_eq {msg : Bytes} {i j : Nat} (hfit : 64 * i + 4 * j + 4 ≤ msg.length) :
    (messageWord msg (64 * i + j * 4)).toBitVec =
      Sha256.blockWord (Sha256.ofBytes msg) i j := by
  rw [Nat.mul_comm j 4, Sha256.blockWord_ofBytes, take_four hfit, ← joinU32]
  apply BitVec.eq_of_toNat_eq
  rw [BitVec.toNat_ofNat, Nat.mod_eq_of_lt (UInt32.toNat_lt _)]
  rfl

/-! ## The message schedule -/

/-- The words that the loop has written are those of the schedule. -/
def Scheduled (M : Nat → Sha256.Word) (w : List UInt32) : Prop :=
  ∀ t < w.length, (w.getD t 0).toBitVec = Sha256.schedule M t

theorem Scheduled.extend {M : Nat → Sha256.Word} {w : List UInt32} (h : Scheduled M w)
    (hlength : 16 ≤ w.length) : Scheduled M (extendSchedule w w.length) := by
  intro t ht
  rw [extendSchedule, List.length_append, List.length_singleton] at ht
  rcases Nat.lt_or_ge t w.length with hold | hnew
  · rw [extendSchedule, List.getD_append _ _ _ _ hold]
    exact h t hold
  · have heq : t = w.length := by omega
    subst heq
    rw [extendSchedule, List.getD_append_right _ _ _ _ le_rfl, Nat.sub_self,
      Sha256.schedule_of_ge M hlength, ← h _ (show w.length - 2 < w.length by omega),
      ← h _ (show w.length - 7 < w.length by omega),
      ← h _ (show w.length - 15 < w.length by omega),
      ← h _ (show w.length - 16 < w.length by omega)]
    generalize w.getD (w.length - 2) 0 = w2
    generalize w.getD (w.length - 7) 0 = w7
    generalize w.getD (w.length - 15) 0 = w15
    generalize w.getD (w.length - 16) 0 = w16
    show w16.toBitVec + Sha256.smallSigma0 w15.toBitVec + w7.toBitVec +
      Sha256.smallSigma1 w2.toBitVec = _
    ac_rfl

/-- What some turns of the loop have written. -/
theorem scheduled_run {M : Nat → Sha256.Word} {w : List UInt32} (h : Scheduled M w)
    (hlength : w.length = 16) (turns : Nat) :
    ((List.range' 16 turns).foldl extendSchedule w).length = 16 + turns ∧
      Scheduled M ((List.range' 16 turns).foldl extendSchedule w) := by
  induction turns with
  | zero => exact ⟨hlength, h⟩
  | succ turns ih =>
    obtain ⟨hwritten, hscheduled⟩ := ih
    rw [List.range'_concat, List.foldl_append, List.foldl_cons, List.foldl_nil, Nat.one_mul]
    generalize (List.range' 16 turns).foldl extendSchedule w = written at *
    constructor
    · rw [length_extendSchedule, hwritten, Nat.add_assoc]
    · rw [← hwritten]
      exact hscheduled.extend (by omega)

/-- The array `w` of a block. -/
theorem schedule_eq {msg : Bytes} {i t : Nat} (hfit : 64 * i + 64 ≤ msg.length) (ht : t < 64) :
    ((schedule msg (64 * i)).getD t 0).toBitVec =
      Sha256.schedule (Sha256.blockWord (Sha256.ofBytes msg) i) t := by
  have hwords : Scheduled (Sha256.blockWord (Sha256.ofBytes msg) i)
      ((List.range 16).map fun j => messageWord msg (64 * i + j * 4)) := by
    intro j hj
    rw [List.length_map, List.length_range] at hj
    have hget : ((List.range 16).map fun j => messageWord msg (64 * i + j * 4)).getD j 0 =
        messageWord msg (64 * i + j * 4) := by
      rw [List.getD_eq_getElem _ _ (by simpa using hj), List.getElem_map, List.getElem_range]
    rw [hget, messageWord_eq (by omega), Sha256.schedule_of_lt _ hj]
  obtain ⟨hlength, hscheduled⟩ := scheduled_run hwords (by simp) 48
  exact hscheduled t (by rw [hlength]; exact ht)

/-! ## The constants -/

/-- The first 64 primes. -/
def primes : List Nat := [
  2, 3, 5, 7, 11, 13, 17, 19, 23, 29, 31, 37, 41, 43, 47, 53,
  59, 61, 67, 71, 73, 79, 83, 89, 97, 101, 103, 107, 109, 113, 127, 131,
  137, 139, 149, 151, 157, 163, 167, 173, 179, 181, 191, 193, 197, 199, 211, 223,
  227, 229, 233, 239, 241, 251, 257, 263, 269, 271, 277, 281, 283, 293, 307, 311]

theorem primes_counted : ∀ t : Fin 64, primes.getD t 0 < 361 ∧
    Sha256.trial (primes.getD t 0) = true ∧
    Nat.count (fun n => Sha256.trial n = true) (primes.getD t 0) = t := by
  decide +kernel

theorem nth_prime {t : Nat} (ht : t < 64) : Nat.nth Nat.Prime t = primes.getD t 0 := by
  obtain ⟨hlt, hprime, hcount⟩ := primes_counted ⟨t, ht⟩
  exact Sha256.nth_prime_eq hlt hprime hcount

/-- A word is the fraction of the root that its powers enclose. -/
theorem toBitVec_eq_rootBits {x : UInt32} {n p q : Nat} (hn : n ≠ 0)
    (hlow : (q * 2 ^ 32 + x.toNat) ^ n ≤ p * 2 ^ (32 * n))
    (hhigh : p * 2 ^ (32 * n) < (q * 2 ^ 32 + x.toNat + 1) ^ n) :
    x.toBitVec = BitVec.ofNat 32 (Sha256.rootBits n p) := by
  rw [Sha256.rootBits_eq hn x.toNat_lt hlow hhigh]
  apply BitVec.eq_of_toNat_eq
  rw [BitVec.toNat_ofNat, Nat.mod_eq_of_lt x.toNat_lt]
  rfl

theorem k_cubes : ∀ t : Fin 64, ∃ q : Fin 7,
    (q * 2 ^ 32 + (k.getD t 0).toNat) ^ 3 ≤ primes.getD t 0 * 2 ^ (32 * 3) ∧
      primes.getD t 0 * 2 ^ (32 * 3) < (q * 2 ^ 32 + (k.getD t 0).toNat + 1) ^ 3 := by
  decide +kernel

theorem k_eq {t : Nat} (ht : t < 64) : (k.getD t 0).toBitVec = Sha256.K t := by
  obtain ⟨q, hlow, hhigh⟩ := k_cubes ⟨t, ht⟩
  rw [Sha256.K, nth_prime ht]
  exact toBitVec_eq_rootBits (by decide) hlow hhigh

/-- The words of a state, in the order of the output. -/
def HashState.words (s : HashState) : List UInt32 :=
  [s.a, s.b, s.c, s.d, s.e, s.f, s.g, s.h]

theorem initialHash_squares : ∀ i : Fin 8, ∃ q : Fin 5,
    (q * 2 ^ 32 + (initialHash.words.getD i 0).toNat) ^ 2 ≤ primes.getD i 0 * 2 ^ (32 * 2) ∧
      primes.getD i 0 * 2 ^ (32 * 2) <
        (q * 2 ^ 32 + (initialHash.words.getD i 0).toNat + 1) ^ 2 := by
  decide +kernel

theorem initialHash_eq {i : Nat} (hi : i < 8) :
    (initialHash.words.getD i 0).toBitVec = Sha256.H0 i := by
  obtain ⟨q, hlow, hhigh⟩ := initialHash_squares ⟨i, hi⟩
  rw [Sha256.H0, nth_prime (by omega)]
  exact toBitVec_eq_rootBits (by decide) hlow hhigh

/-! ## Compression -/

/-- The words of a state. -/
def HashState.toVariables (s : HashState) : Sha256.Variables where
  a := s.a.toBitVec
  b := s.b.toBitVec
  c := s.c.toBitVec
  d := s.d.toBitVec
  e := s.e.toBitVec
  f := s.f.toBitVec
  g := s.g.toBitVec
  h := s.h.toBitVec

theorem toVariables_compressRound (w : List UInt32) (s : HashState) (t : Nat) :
    (compressRound w s t).toVariables =
      Sha256.round (k.getD t 0).toBitVec (w.getD t 0).toBitVec s.toVariables := by
  generalize hk : k.getD t 0 = kt
  generalize hw : w.getD t 0 = wt
  rw [compressRound, hk, hw]
  rfl

theorem toVariables_initialHash : initialHash.toVariables = Sha256.initialHash := by
  unfold Sha256.initialHash
  rw [← initialHash_eq (show 0 < 8 by decide), ← initialHash_eq (show 1 < 8 by decide),
    ← initialHash_eq (show 2 < 8 by decide), ← initialHash_eq (show 3 < 8 by decide),
    ← initialHash_eq (show 4 < 8 by decide), ← initialHash_eq (show 5 < 8 by decide),
    ← initialHash_eq (show 6 < 8 by decide), ← initialHash_eq (show 7 < 8 by decide)]
  rfl

/-- The loop over the rounds, up to round `t`. -/
theorem toVariables_rounds {w : List UInt32} {W : Nat → Sha256.Word} (s : HashState)
    (hw : ∀ t < 64, (w.getD t 0).toBitVec = W t) {t : Nat} (ht : t ≤ 64) :
    ((List.range t).foldl (compressRound w) s).toVariables =
      Sha256.rounds W s.toVariables t := by
  induction t with
  | zero => rfl
  | succ t ih =>
    rw [List.range_succ, List.foldl_append, List.foldl_cons, List.foldl_nil,
      toVariables_compressRound, ih (by omega), hw t (by omega), k_eq (by omega), Sha256.rounds]

theorem toVariables_compressBlock {msg : Bytes} {i : Nat} (s : HashState)
    (hfit : 64 * i + 64 ≤ msg.length) :
    (compressBlock msg s (64 * i)).toVariables =
      Sha256.compress (Sha256.blockWord (Sha256.ofBytes msg) i) s.toVariables := by
  have hrounds := toVariables_rounds s (fun t ht => schedule_eq hfit ht) le_rfl
  rw [compressBlock, Sha256.compress, ← hrounds]
  generalize (List.range 64).foldl (compressRound (schedule msg (64 * i))) s = r
  simp only [HashState.toVariables, UInt32.toBitVec_add, BitVec.add_comm]

/-- The loop over the blocks, up to block `i`. -/
theorem toVariables_blocks {msg : Bytes} {i : Nat} (hfit : 64 * i ≤ msg.length) :
    ((List.range i).foldl (fun s block => compressBlock msg s (64 * block))
      initialHash).toVariables = Sha256.hashAfter (Sha256.ofBytes msg) i := by
  induction i with
  | zero => exact toVariables_initialHash
  | succ i ih =>
    rw [List.range_succ, List.foldl_append, List.foldl_cons, List.foldl_nil,
      toVariables_compressBlock _ (by omega), ih (by omega), Sha256.hashAfter]

/-! ## Output -/

theorem hexChar_eq : ∀ digit < 16,
    hexChar digit = UInt8.ofNat (Nat.digitChar digit).toNat := by
  decide

/-- A field holds the digits of the bits that spell the number. -/
theorem setwHex_valueOf {width : Nat} {bits : List Bool} (hbits : bits.length = 4 * (width + 1)) :
    setwHex (width + 1) (Sha256.valueOf bits) = str (String.ofList (Sha256.hex bits)) := by
  induction width generalizing bits with
  | zero =>
    match bits, hbits with
    | [a, b, c, d], _ => revert a b c d; decide
  | succ width ih =>
    have hhigh : (bits.take (4 * (width + 1))).length = 4 * (width + 1) := by
      rw [List.length_take]
      omega
    have hlow : (bits.drop (4 * (width + 1))).length = 4 := by
      rw [List.length_drop]
      omega
    rw [← List.take_append_drop (4 * (width + 1)) bits]
    generalize bits.take (4 * (width + 1)) = high at *
    generalize bits.drop (4 * (width + 1)) = low at *
    have hdigit := Sha256.valueOf_lt low
    rw [hlow] at hdigit
    have hdiv : (Sha256.valueOf high * 2 ^ 4 + Sha256.valueOf low) / 16 =
        Sha256.valueOf high := by omega
    have hmod : (Sha256.valueOf high * 2 ^ 4 + Sha256.valueOf low) % 16 =
        Sha256.valueOf low := by omega
    have hlast : Sha256.hex low = [Nat.digitChar (Sha256.valueOf low)] := by
      match low, hlow with
      | [a, b, c, d], _ => rfl
    rw [setwHex_succ (by omega), Sha256.valueOf_append, hlow, Sha256.hex_append hhigh, hdiv, hmod,
      ih hhigh, hexChar_eq _ hdigit, hlast]
    simp only [str, String.toList_ofList, List.map_append, List.map_cons, List.map_nil]

/-- The fields of the output loop, one after another. -/
theorem setwHex_words (words : List UInt32) :
    (words.flatMap fun v => setwHex 8 v.toNat) =
      str (String.ofList (Sha256.hex ((words.map UInt32.toBitVec).flatMap Sha256.bitsOf))) := by
  induction words with
  | nil => rfl
  | cons v words ih =>
    have hlength := Sha256.length_bitsOf v.toBitVec
    have hfield := @setwHex_valueOf 7 (Sha256.bitsOf v.toBitVec) hlength
    rw [Sha256.valueOf_bitsOf] at hfield
    rw [List.flatMap_cons, ih, List.map_cons, List.flatMap_cons,
      Sha256.hex_append (show (Sha256.bitsOf v.toBitVec).length = 4 * 8 from hlength)]
    simp only [str, String.toList_ofList, List.map_append] at hfield ⊢
    exact congrArg (· ++ _) hfield

/-- The digest is the one of the standard, in 64 hexadecimal characters. -/
theorem sha256_digest {data : Bytes} (hdata : data.length < 2 ^ 61) :
    (sha256 data).length = 64 ∧
      sha256 data = str (String.ofList (Sha256.hex (Sha256.digest (Sha256.ofBytes data)))) := by
  have hblocks := length_padMessage_mod data
  have hcount : (Sha256.pad (Sha256.ofBytes data)).length / 512 =
      ((padMessage data).length + 63) / 64 := by
    rw [← ofBytes_padMessage hdata, Sha256.length_ofBytes]
    omega
  refine ⟨sha256_length data, ?_⟩
  rw [Sha256.digest, hcount, ← ofBytes_padMessage hdata, ← toVariables_blocks (by omega)]
  exact setwHex_words (hashBlocks (padMessage data)).words

theorem sha256_digest_hello : (str "hello").length < 2 ^ 61 ∧
    str (String.ofList (Sha256.hex (Sha256.digest (Sha256.ofBytes (str "hello"))))) =
      str "2cf24dba5fb0a30e26e83b2ac5b9e29e1b161e5c1fa7425e73043362938b9824" := by
  have hlength : (str "hello").length < 2 ^ 61 := by decide
  refine ⟨hlength, ?_⟩
  rw [← (sha256_digest hlength).2]
  decide +kernel

end Checksum

end StorageEngine
