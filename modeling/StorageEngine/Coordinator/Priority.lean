import StorageEngine.Lib.BigEndian
import StorageEngine.Coordinator.CoordinatorService

/-!
# The order of the priorities

`node_priority` reads an id as a number in base 256 and keeps the low 64 bits.  So it
compares the last eight bytes of two ids, with zeros before an id that has fewer.  This is
the order of the ids among ids of one length, if they have at most eight bytes, and for no
other lengths.
-/

namespace StorageEngine

open Lib.BigEndian

/-- The last eight bytes of an id, behind zeros if it has fewer. -/
def lastEight (nodeId : Str) : Str :=
  List.replicate (8 - nodeId.length) 0 ++ nodeId.drop (nodeId.length - 8)

theorem lastEight_length (nodeId : Str) : (lastEight nodeId).length = 8 := by
  rw [lastEight, List.length_append, List.length_replicate, List.length_drop]
  omega

theorem nodePriority_toNat (nodeId : Str) :
    (nodePriority nodeId).toNat = joinBytes nodeId % 2 ^ 64 := by
  induction nodeId using List.reverseRecOn with
  | nil => rfl
  | append_singleton nodeId c ih =>
    have hstep : nodePriority (nodeId ++ [c]) = nodePriority nodeId * 256 + c.toUInt64 := by
      simp [nodePriority]
    rw [hstep, joinBytes_concat, UInt64.toNat_add, UInt64.toNat_mul, ih, UInt8.toNat_toUInt64]
    simp [Nat.add_mod, Nat.mul_mod]

/-- The bytes before the last eight are multiples of `2 ^ 64`. -/
theorem joinBytes_lastEight (nodeId : Str) :
    joinBytes (lastEight nodeId) = joinBytes nodeId % 2 ^ 64 := by
  have hlt := joinBytes_lt (lastEight nodeId)
  rw [lastEight_length] at hlt
  have hdrop : joinBytes (lastEight nodeId) = joinBytes (nodeId.drop (nodeId.length - 8)) := by
    rw [lastEight, joinBytes_append, joinBytes_zeros, Nat.zero_mul, Nat.zero_add]
  by_cases hlong : 8 ≤ nodeId.length
  · have hlength : (nodeId.drop (nodeId.length - 8)).length = 8 := by
      rw [List.length_drop]
      omega
    conv_rhs => rw [← List.take_append_drop (nodeId.length - 8) nodeId, joinBytes_append, hlength]
    rw [hdrop] at hlt ⊢
    omega
  · rw [show nodeId.length - 8 = 0 by omega, List.drop_zero] at hdrop
    rw [hdrop] at hlt ⊢
    omega

/-- Two priorities compare as the last eight bytes of the ids. -/
theorem nodePriority_lt_iff (a b : Str) :
    nodePriority a < nodePriority b ↔ lastEight a < lastEight b := by
  rw [UInt64.lt_iff_toNat_lt, nodePriority_toNat, nodePriority_toNat, ← joinBytes_lastEight,
    ← joinBytes_lastEight]
  apply joinBytes_lt_iff
  rw [lastEight_length, lastEight_length]

/-- Among ids of one length of at most eight bytes, the priority is the order of the ids. -/
theorem nodePriority_lt_iff_of_length {a b : Str} (hlength : a.length = b.length)
    (hshort : a.length ≤ 8) : nodePriority a < nodePriority b ↔ a < b := by
  have hpow : 256 ^ a.length ≤ 2 ^ 64 := Nat.pow_le_pow_right (by decide) hshort
  have ha := joinBytes_lt a
  have hb := joinBytes_lt b
  rw [← hlength] at hb
  rw [UInt64.lt_iff_toNat_lt, nodePriority_toNat, nodePriority_toNat,
    Nat.mod_eq_of_lt (ha.trans_le hpow), Nat.mod_eq_of_lt (hb.trans_le hpow),
    joinBytes_lt_iff hlength]

/-- Every 64-bit number is the priority of an id. -/
theorem exists_nodePriority_eq (priority : UInt64) : ∃ nodeId, nodePriority nodeId = priority := by
  let nodeId : Str := ([7, 6, 5, 4, 3, 2, 1, 0] : List UInt64).map fun i =>
    ((priority >>> (i * 8)) &&& 0xff).toUInt8
  refine ⟨nodeId, ?_⟩
  rw [← UInt64.toNat_inj, nodePriority_toNat, joinBytes_bytesOfU64,
    Nat.mod_eq_of_lt priority.toNat_lt]

/-- The priority of two ids follows their order, and they do not share one. -/
structure PriorityFollows (a b : Str) : Prop where
  lt_iff : a < b ↔ nodePriority a < nodePriority b
  distinct : a ≠ b → nodePriority a ≠ nodePriority b

theorem priorityFollows_iff {a b : Str} : PriorityFollows a b ↔
    a = b ∨ (a < b ∧ lastEight a < lastEight b) ∨ (b < a ∧ lastEight b < lastEight a) := by
  rw [← nodePriority_lt_iff, ← nodePriority_lt_iff]
  constructor
  · intro h
    rcases Std.lt_trichotomy a b with hlt | heq | hgt
    · exact .inr (.inl ⟨hlt, h.lt_iff.mp hlt⟩)
    · exact .inl heq
    · refine .inr (.inr ⟨hgt, ?_⟩)
      have hle : ¬nodePriority a < nodePriority b :=
        fun hlt => List.lt_asymm hgt (h.lt_iff.mpr hlt)
      have hne := h.distinct (Std.ne_of_lt hgt).symm
      exact UInt64.lt_of_le_of_ne (UInt64.not_lt.mp hle) hne.symm
  · intro h
    rcases h with rfl | ⟨hlt, hpriority⟩ | ⟨hgt, hpriority⟩
    · exact ⟨iff_of_false (List.lt_irrefl a) (UInt64.lt_irrefl _), absurd rfl⟩
    · exact ⟨iff_of_true hlt hpriority, fun _ => UInt64.ne_of_lt hpriority⟩
    · exact ⟨iff_of_false (List.lt_asymm hgt) (UInt64.lt_asymm hpriority),
        fun _ => (UInt64.ne_of_lt hpriority).symm⟩

/-- Ids of one length of at most eight bytes have priorities that follow their order. -/
theorem priorityFollows_of_length {a b : Str} (hlength : a.length = b.length)
    (hshort : a.length ≤ 8) : PriorityFollows a b := by
  have hlt := nodePriority_lt_iff_of_length hlength hshort
  have hgt := nodePriority_lt_iff_of_length hlength.symm (hlength ▸ hshort)
  refine ⟨hlt.symm, fun hne heq => ?_⟩
  rcases Std.lt_trichotomy a b with h | h | h
  · exact UInt64.ne_of_lt (hlt.mpr h) heq
  · exact hne h
  · exact UInt64.ne_of_lt (hgt.mpr h) heq.symm

/-- Ids of zero bytes have one priority. -/
theorem nodePriority_zeros (n : ℕ) : nodePriority (List.replicate n 0) = 0 := by
  rw [← UInt64.toNat_inj, nodePriority_toNat, joinBytes_zeros]
  rfl

/-- A byte before the last eight does not count. -/
theorem nodePriority_cons_zeros (c : UInt8) {n : ℕ} (hlong : 8 ≤ n) :
    nodePriority (c :: List.replicate n 0) = 0 := by
  have hdvd : 2 ^ 64 ∣ 256 ^ n := by
    have h := Nat.pow_dvd_pow 256 hlong
    exact (by decide : 2 ^ 64 ∣ 256 ^ 8).trans h
  rw [← UInt64.toNat_inj, nodePriority_toNat, joinBytes_cons, joinBytes_zeros,
    List.length_replicate, Nat.add_zero]
  exact Nat.mod_eq_zero_of_dvd (hdvd.mul_left _)

/-- Ids of two lengths, or of one of more than eight bytes, need not. -/
theorem exists_not_priorityFollows {m n : ℕ} (h : ¬(m = n ∧ m ≤ 8)) :
    ∃ a b : Str, a.length = m ∧ b.length = n ∧ ¬PriorityFollows a b := by
  by_cases hlength : m = n
  · subst hlength
    obtain ⟨k, rfl⟩ : ∃ k, m = k + 1 := ⟨m - 1, by omega⟩
    refine ⟨0 :: List.replicate k 0, 1 :: List.replicate k 0, by simp, by simp, fun hfollows => ?_⟩
    apply hfollows.distinct (by simp)
    rw [nodePriority_cons_zeros 0 (by omega), nodePriority_cons_zeros 1 (by omega)]
  · refine ⟨List.replicate m 0, List.replicate n 0, List.length_replicate,
      List.length_replicate, fun hfollows => ?_⟩
    apply hfollows.distinct
    · intro hsame
      apply hlength
      simpa using congrArg List.length hsame
    · rw [nodePriority_zeros, nodePriority_zeros]

/-- Two ids have priorities that follow their order when they compare as their last eight
bytes do.  All ids of two lengths do exactly when the lengths are the same and at most
eight. -/
theorem priority_follows_iff (a b : Str) (m n : ℕ) :
    (PriorityFollows a b ↔
      a = b ∨ (a < b ∧ lastEight a < lastEight b) ∨ (b < a ∧ lastEight b < lastEight a)) ∧
    ((∀ a b : Str, a.length = m → b.length = n → PriorityFollows a b) ↔ m = n ∧ m ≤ 8) := by
  refine ⟨priorityFollows_iff, fun h => ?_, fun h a b ha hb => ?_⟩
  · by_contra hlengths
    obtain ⟨a, b, ha, hb, hfollows⟩ := exists_not_priorityFollows hlengths
    exact hfollows (h a b ha hb)
  · exact priorityFollows_of_length (by omega) (by omega)

/-- The id that comes first has the higher priority, and two ids share one. -/
theorem priority_not_follows :
    ¬PriorityFollows (str "coordinator-10") (str "coordinator-9") ∧
      ¬PriorityFollows (str "a-coordinator") (str "b-coordinator") := by
  constructor
  · intro h
    exact absurd (h.lt_iff.mp (by decide)) (by decide)
  · intro h
    exact h.distinct (by decide) (by decide)

end StorageEngine
