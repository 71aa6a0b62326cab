import Mathlib.Order.Bounds.Defs
import StorageEngine.Common.Checksum
import StorageEngine.Lib.CheckedArray
import StorageEngine.Lib.MarkerPadding

/-!
# The padding of `sha256_impl` and its indexes

The padding loop of `src/common/checksum.cpp` as a loop without a bound, the block loop with a
test at each access of `msg`, `k` and `w`, and the message that a padded message comes from.

* `padLoop_iff`: the padding loop has one run, and it ends where `padZeros` does.
* `hashBlocksChecked_eq`: on whole blocks no access is out of range and none reads a word of
  `w` before it is written.
* `unpadMessage_padMessage`: the byte `0x80` marks the end of the message, whatever the length
  bytes say.
-/

namespace StorageEngine

namespace Checksum

open Lib Lib.CheckedArray

/-! ## The padding loop -/

/-- `while ((msg.size() % 64) != 56) msg.push_back(0);`, with the number of its turns. -/
inductive PadLoop : Bytes → ℕ → Bytes → Prop where
  | stop {msg} (hlength : msg.length % 64 = 56) : PadLoop msg 0 msg
  | turn {msg turns padded} (hlength : msg.length % 64 ≠ 56)
      (rest : PadLoop (msg ++ [0]) turns padded) : PadLoop msg (turns + 1) padded

/-- The loop pushes the zero bytes that are missing. -/
theorem padLoop_replicate {zeros : ℕ} (hzeros : zeros < 64) {msg : Bytes}
    (hlength : (msg.length + zeros) % 64 = 56) :
    PadLoop msg zeros (msg ++ List.replicate zeros 0) := by
  induction zeros generalizing msg with
  | zero =>
    rw [List.replicate_zero, List.append_nil]
    exact .stop hlength
  | succ zeros ih =>
    have hpushed : ((msg ++ [0]).length + zeros) % 64 = 56 := by
      rw [List.length_append, List.length_singleton]
      omega
    have hrest := ih (by omega) hpushed
    rw [List.append_assoc, List.singleton_append, ← List.replicate_succ] at hrest
    exact .turn (by omega) hrest

/-- The test of the loop decides its next turn. -/
theorem PadLoop.unique {msg padded padded' : Bytes} {turns turns' : ℕ}
    (h : PadLoop msg turns padded) (h' : PadLoop msg turns' padded') :
    turns = turns' ∧ padded = padded' := by
  induction h generalizing turns' with
  | stop hlength =>
    cases h' with
    | stop => exact ⟨rfl, rfl⟩
    | turn hturn => exact absurd hlength hturn
  | turn hlength _ ih =>
    cases h' with
    | stop hstop => exact absurd hstop hlength
    | turn _ rest =>
      obtain ⟨hturns, hpadded⟩ := ih rest
      exact ⟨congrArg (· + 1) hturns, hpadded⟩

/-- Fuel for the turns of the loop is enough. -/
theorem PadLoop.padZeros_eq {msg padded : Bytes} {turns fuel : ℕ} (h : PadLoop msg turns padded)
    (hfuel : turns ≤ fuel) : padZeros fuel msg = padded := by
  induction h generalizing fuel with
  | stop hlength =>
    cases fuel with
    | zero => rfl
    | succ fuel => rw [padZeros, if_neg (not_not.mpr hlength)]
  | turn hlength _ ih =>
    cases fuel with
    | zero => omega
    | succ fuel =>
      rw [padZeros, if_pos hlength]
      exact ih (by omega)

/-- The zero bytes after the byte `0x80` of a message of `length` bytes. -/
def zeroBytes (length : Nat) : Nat := (119 - length % 64) % 64

theorem zeroBytes_lt (length : ℕ) : zeroBytes length < 64 := Nat.mod_lt _ (by decide)

theorem padLoop_zeroBytes (data : Bytes) :
    PadLoop (data ++ [0x80]) (zeroBytes data.length)
      (data ++ [0x80] ++ List.replicate (zeroBytes data.length) 0) := by
  apply padLoop_replicate (zeroBytes_lt data.length)
  rw [List.length_append, List.length_singleton, zeroBytes]
  omega

theorem padZeros_eq (data : Bytes) :
    padZeros 64 (data ++ [0x80]) =
      data ++ [0x80] ++ List.replicate (zeroBytes data.length) 0 :=
  (padLoop_zeroBytes data).padZeros_eq (zeroBytes_lt data.length).le

/-- The loop has one run. -/
theorem padLoop_iff (data : Bytes) (turns : ℕ) (padded : Bytes) :
    PadLoop (data ++ [0x80]) turns padded ↔
      turns = zeroBytes data.length ∧ padded = padZeros 64 (data ++ [0x80]) := by
  rw [padZeros_eq]
  constructor
  · intro h
    exact h.unique (padLoop_zeroBytes data)
  · intro h
    rw [h.1, h.2]
    exact padLoop_zeroBytes data

/-! ## The padded message -/

theorem padMessage_eq (data : Bytes) :
    padMessage data = data ++ [0x80] ++ List.replicate (zeroBytes data.length) 0 ++
      lengthBytes (UInt64.ofNat data.length * 8) := by
  rw [padMessage, padZeros_eq]

@[simp] theorem length_lengthBytes (bitLen : UInt64) : (lengthBytes bitLen).length = 8 := by
  simp [lengthBytes]

theorem length_padMessage (data : Bytes) :
    (padMessage data).length = data.length + 1 + zeroBytes data.length + 8 := by
  rw [padMessage_eq]
  simp only [List.length_append, List.length_singleton, List.length_replicate,
    length_lengthBytes]

/-- The padded message is a sequence of blocks. -/
theorem length_padMessage_mod (data : Bytes) : (padMessage data).length % 64 = 0 := by
  rw [length_padMessage, zeroBytes]
  omega

/-- There is no shorter sequence of blocks with room for the marker and the length. -/
theorem length_padMessage_isLeast (data : Bytes) :
    IsLeast {n | 64 ∣ n ∧ data.length + 1 + 8 ≤ n} (padMessage data).length := by
  have hblocks := length_padMessage_mod data
  have hlength := length_padMessage data
  constructor
  · exact ⟨Nat.dvd_of_mod_eq_zero hblocks, by omega⟩
  · intro n hn
    have hzeros := zeroBytes_lt data.length
    have hmod := Nat.mod_eq_zero_of_dvd hn.1
    have hroom := hn.2
    omega

/-! ## The block loop with its indexes -/

/-- The four bytes of a word, from `msg[i]` on. -/
def messageWordChecked (msg : Bytes) (i : ℕ) : Option UInt32 := do
  let b0 ← msg[i]?
  let b1 ← msg[i + 1]?
  let b2 ← msg[i + 2]?
  let b3 ← msg[i + 3]?
  return (b0.toUInt32 <<< 24) ||| (b1.toUInt32 <<< 16) ||| (b2.toUInt32 <<< 8) ||| b3.toUInt32

/-- `w[i] = w[i - 16] + s0 + w[i - 7] + s1`.  The indexes are of type `int`. -/
def extendTurn (w : Slots UInt32) (i : ℕ) : Option (Slots UInt32) := do
  let w15 ← read w (i - 15)
  let s0 := rotr w15 7 ^^^ rotr w15 18 ^^^ (w15 >>> 3)
  let w2 ← read w (i - 2)
  let s1 := rotr w2 17 ^^^ rotr w2 19 ^^^ (w2 >>> 10)
  let w16 ← read w (i - 16)
  let w7 ← read w (i - 7)
  write w i (w16 + s0 + w7 + s1)

/-- A round with its accesses `k[i]` and `w[i]`. -/
def roundTurn (w : Slots UInt32) (s : HashState) (i : ℕ) : Option HashState := do
  let S1 := rotr s.e 6 ^^^ rotr s.e 11 ^^^ rotr s.e 25
  let ch := (s.e &&& s.f) ^^^ (~~~s.e &&& s.g)
  let temp1 := s.h + S1 + ch + (← k[i]?) + (← read w i)
  let S0 := rotr s.a 2 ^^^ rotr s.a 13 ^^^ rotr s.a 22
  let maj := (s.a &&& s.b) ^^^ (s.a &&& s.c) ^^^ (s.b &&& s.c)
  let temp2 := S0 + maj
  return { a := temp1 + temp2, b := s.a, c := s.b, d := s.c
           e := s.d + temp1, f := s.e, g := s.f, h := s.g }

/-- The body of the block loop, from `uint32_t w[64]` on. -/
def blockTurn (msg : Bytes) (s : HashState) (offset : ℕ) : Option HashState := do
  let w ← (List.range 16).foldlM
    (fun w i => do write w i (← messageWordChecked msg (offset + i * 4))) (filled 64 [])
  let w ← (List.range' 16 48).foldlM extendTurn w
  let r ← (List.range 64).foldlM (roundTurn w) s
  return { a := s.a + r.a, b := s.b + r.b, c := s.c + r.c, d := s.d + r.d
           e := s.e + r.e, f := s.f + r.f, g := s.g + r.g, h := s.h + r.h }

/-- The block loop. -/
def hashBlocksChecked (msg : Bytes) : Option HashState :=
  (List.range ((msg.length + 63) / 64)).foldlM
    (fun s block => blockTurn msg s (64 * block)) initialHash

theorem messageWordChecked_eq {msg : Bytes} {i : ℕ} (hfit : i + 4 ≤ msg.length) :
    messageWordChecked msg i = some (messageWord msg i) := by
  unfold messageWordChecked
  rw [getElem?_eq_getD (show i < msg.length by omega) 0,
    getElem?_eq_getD (show i + 1 < msg.length by omega) 0,
    getElem?_eq_getD (show i + 2 < msg.length by omega) 0,
    getElem?_eq_getD (show i + 3 < msg.length by omega) 0]
  rfl

/-- A read at a smaller index, as the source writes it. -/
theorem read_sub {words : List UInt32} {i back : ℕ} (hback : 0 < back) (hi : back ≤ i)
    (hwords : words.length = i) :
    read (filled 64 words) ((i : ℤ) - back) = some (words.getD (i - back) 0) := by
  have hindex : (i : ℤ) - back = ((i - back : ℕ) : ℤ) := by omega
  rw [hindex]
  exact read_filled (by omega) 64 0

/-- A turn of the schedule loop reads words that are there and writes the next one. -/
theorem extendTurn_eq {words : List UInt32} {i : ℕ} (hwords : words.length = i) (hlow : 16 ≤ i)
    (hhigh : i < 64) :
    extendTurn (filled 64 words) i = some (filled 64 (extendSchedule words i)) := by
  have hwrite := write_filled (show words.length < 64 by omega)
  rw [hwords] at hwrite
  have h15 : read (filled 64 words) (i - 15) = some (words.getD (i - 15) 0) :=
    read_sub (by decide) (show 15 ≤ i by omega) hwords
  have h2 : read (filled 64 words) (i - 2) = some (words.getD (i - 2) 0) :=
    read_sub (by decide) (show 2 ≤ i by omega) hwords
  have h16 : read (filled 64 words) (i - 16) = some (words.getD (i - 16) 0) :=
    read_sub (by decide) (show 16 ≤ i from hlow) hwords
  have h7 : read (filled 64 words) (i - 7) = some (words.getD (i - 7) 0) :=
    read_sub (by decide) (show 7 ≤ i by omega) hwords
  unfold extendTurn
  rw [h15, h2, h16, h7]
  exact hwrite _

theorem roundTurn_eq {words : List UInt32} {i : ℕ} (hwords : words.length = 64) (hi : i < 64)
    (s : HashState) : roundTurn (filled 64 words) s i = some (compressRound words s i) := by
  unfold roundTurn
  rw [getElem?_eq_getD (show i < k.length from hi) 0,
    read_filled (show i < words.length by omega) 64 0]
  rfl

/-- The schedule loop, from the sixteen words of the block on. -/
theorem extendTurns_eq {words : List UInt32} (hwords : words.length = 16) :
    ((List.range' 16 48).foldl extendSchedule words).length = 64 ∧
      (List.range' 16 48).foldlM extendTurn (filled 64 words) =
        some (filled 64 ((List.range' 16 48).foldl extendSchedule words)) := by
  have hturn : ∀ i (words : List UInt32) (w : Slots UInt32), 16 ≤ i → i < 16 + 48 →
      words.length = i ∧ w = filled 64 words → ∃ w', extendTurn w i = some w' ∧
        (extendSchedule words i).length = i + 1 ∧ w' = filled 64 (extendSchedule words i) := by
    intro i words w hlow hhigh hrep
    refine ⟨filled 64 (extendSchedule words i), ?_, ?_, rfl⟩
    · rw [hrep.2]
      exact extendTurn_eq hrep.1 hlow hhigh
    · rw [length_extendSchedule, hrep.1]
  obtain ⟨w, hw, hlength, hfilled⟩ := foldlM_simulates extendSchedule extendTurn
    (fun i words w => words.length = i ∧ w = filled 64 words) hturn ⟨hwords, rfl⟩
  refine ⟨hlength, ?_⟩
  rw [hw, hfilled]

/-- On a block of the message no access fails. -/
theorem blockTurn_eq {msg : Bytes} {offset : ℕ} (hfit : offset + 64 ≤ msg.length)
    (s : HashState) : blockTurn msg s offset = some (compressBlock msg s offset) := by
  have hload := foldlM_fill (show 16 ≤ 64 by decide)
    (fun i hi => messageWordChecked_eq (show offset + i * 4 + 4 ≤ msg.length by omega))
  obtain ⟨hlength, hextend⟩ := extendTurns_eq
    (show ((List.range 16).map fun i => messageWord msg (offset + i * 4)).length = 16 by simp)
  rw [← schedule] at hlength hextend
  have hrounds := foldlM_eq_some (compressRound (schedule msg offset))
    (fun i hi s => roundTurn_eq hlength hi s) s
  unfold blockTurn
  rw [hload, Option.bind_eq_bind, Option.bind_some, hextend, Option.bind_some, hrounds,
    Option.bind_eq_bind, Option.bind_some, compressBlock]
  rfl

/-- On whole blocks the loop stays inside `msg`, `k` and `w`. -/
theorem hashBlocksChecked_eq {msg : Bytes} (hblocks : msg.length % 64 = 0) :
    hashBlocksChecked msg = some (hashBlocks msg) :=
  foldlM_eq_some (fun s block => compressBlock msg s (64 * block))
    (fun block hblock s => blockTurn_eq (by omega) s) initialHash

/-! ## Reading a padded message back -/

/-- The message of a padded message: its last eight bytes are the length. -/
def unpadMessage (padded : Bytes) : Option Bytes :=
  MarkerPadding.unpad 0x80 0 (padded.rdrop 8)

/-- The marker is enough to tell padded messages apart.  The length bytes count modulo `2 ^ 64`
bits and would not be. -/
theorem unpadMessage_padMessage (data : Bytes) : unpadMessage (padMessage data) = some data := by
  have hdrop : (padMessage data).rdrop 8 =
      MarkerPadding.pad 0x80 0 (zeroBytes data.length) data := by
    rw [padMessage_eq, ← length_lengthBytes (UInt64.ofNat data.length * 8)]
    exact List.rdrop_append_length
  rw [unpadMessage, hdrop]
  exact MarkerPadding.unpad_pad (by decide) _ _

/-- The padding is well formed: the loop adds at most 63 zero bytes, the message and the marker
come first, the length is the least that leaves room for them and the length bytes, the block
loop has its indexes in range, and the message can be told from the padded one. -/
theorem padMessage_wellFormed (data other : Bytes) :
    (∃ zeros ≤ 63,
      (∀ turns padded, PadLoop (data ++ [0x80]) turns padded ↔
        turns = zeros ∧ padded = padZeros 64 (data ++ [0x80])) ∧
      padMessage data = data ++ [0x80] ++ List.replicate zeros 0 ++
        lengthBytes (UInt64.ofNat data.length * 8)) ∧
    data ++ [0x80] <+: padMessage data ∧
    IsLeast {n | 64 ∣ n ∧ data.length + 1 + 8 ≤ n} (padMessage data).length ∧
    hashBlocksChecked (padMessage data) = some (hashBlocks (padMessage data)) ∧
    (padMessage data = padMessage other ↔ data = other) := by
  refine ⟨⟨zeroBytes data.length, Nat.le_of_lt_succ (zeroBytes_lt _), padLoop_iff data,
    padMessage_eq data⟩, ?_,
    length_padMessage_isLeast data, hashBlocksChecked_eq (length_padMessage_mod data), ?_⟩
  · rw [padMessage_eq, List.append_assoc]
    exact List.prefix_append _ _
  · constructor
    · intro hsame
      have hdata := unpadMessage_padMessage data
      rw [hsame, unpadMessage_padMessage other] at hdata
      exact (Option.some.inj hdata).symm
    · intro hdata
      rw [hdata]

end Checksum

end StorageEngine
