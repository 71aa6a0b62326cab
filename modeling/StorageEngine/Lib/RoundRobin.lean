import Mathlib.Data.Int.CardIntervalMod
import Mathlib.Data.List.GetD

/-!
# Going round a list

Picks from a list, one position after another and back to the first behind the last.  The
tally of an element depends on the number of picks only, up to one: it is the number of
full rounds, or one more.
-/

namespace Lib

variable {α : Type}

/-- `n` picks from `xs`, from the position of the counter `start` on. -/
def goRound (xs : List α) (fallback : α) (start n : ℕ) : List α :=
  (List.range n).map fun i => xs.getD ((start + i) % xs.length) fallback

/-- The picks of two calls are those of one, with the counter where the first has left it. -/
theorem goRound_append (xs : List α) (fallback : α) (start m n : ℕ) :
    goRound xs fallback start m ++ goRound xs fallback (start + m) n =
      goRound xs fallback start (m + n) := by
  simp only [goRound, List.range_add, List.map_append, List.map_map]
  congr 1
  apply List.map_congr_left
  intro i hi
  simp only [Function.comp_apply, Nat.add_assoc]

theorem goRound_subset {xs : List α} (hne : xs ≠ []) (fallback : α) (start n : ℕ) :
    goRound xs fallback start n ⊆ xs := by
  intro x hx
  simp only [goRound, List.mem_map] at hx
  obtain ⟨i, -, rfl⟩ := hx
  have hlt := Nat.mod_lt (start + i) (List.length_pos_of_ne_nil hne)
  rw [List.getD_eq_getElem _ _ hlt]
  exact List.getElem_mem hlt

/-- Within one round no element is picked twice. -/
theorem goRound_nodup {xs : List α} (hnodup : xs.Nodup) (fallback : α) (start : ℕ) {n : ℕ}
    (hn : n ≤ xs.length) : (goRound xs fallback start n).Nodup := by
  unfold goRound
  apply List.Nodup.map_on _ List.nodup_range
  intro i hi j hj heq
  rw [List.mem_range] at hi hj
  have hpos : 0 < xs.length := by omega
  rw [List.getD_eq_getElem _ _ (Nat.mod_lt _ hpos), List.getD_eq_getElem _ _ (Nat.mod_lt _ hpos),
    hnodup.getElem_inj_iff] at heq
  have hresidue : i ≡ j [MOD xs.length] := Nat.ModEq.add_left_cancel' start heq
  exact hresidue.eq_of_lt_of_lt (by omega) (by omega)

/-- The counter values that meet a residue, among `n` in a row. -/
theorem count_residue {r : ℕ} (hr : 0 < r) {v : ℕ} (hv : v < r) (start n : ℕ) :
    n / r ≤ Nat.count (fun i => start + i ≡ v [MOD r]) n ∧
      Nat.count (fun i => start + i ≡ v [MOD r]) n ≤ n / r + 1 := by
  have hsplit := Nat.count_add (fun k => k ≡ v [MOD r]) start n
  rw [Nat.count_modEq_card _ hr, Nat.count_modEq_card _ hr, Nat.mod_eq_of_lt hv,
    Nat.add_div hr, Nat.add_mod_eq_ite] at hsplit
  have hstart := Nat.mod_lt start hr
  have hn := Nat.mod_lt n hr
  generalize start % r = s at *
  generalize n % r = m at *
  split_ifs at hsplit <;> omega

variable [DecidableEq α]

theorem count_map_range (f : ℕ → α) (x : α) (n : ℕ) :
    ((List.range n).map f).count x = Nat.count (fun i => f i = x) n := by
  induction n with
  | zero => rfl
  | succ n ih =>
    rw [List.range_succ, List.map_append, List.count_append, ih, Nat.count_succ]
    simp [List.count_singleton]

/-- Every element is picked once in every full round, and at most once more. -/
theorem count_goRound {xs : List α} (hnodup : xs.Nodup) (fallback : α) (start n : ℕ) {x : α}
    (hx : x ∈ xs) :
    n / xs.length ≤ (goRound xs fallback start n).count x ∧
      (goRound xs fallback start n).count x ≤ n / xs.length + 1 := by
  obtain ⟨v, hv, rfl⟩ := List.getElem_of_mem hx
  have hpos : 0 < xs.length := by omega
  have hpick : ∀ i, xs.getD ((start + i) % xs.length) fallback = xs[v] ↔
      start + i ≡ v [MOD xs.length] := by
    intro i
    have hlt := Nat.mod_lt (start + i) hpos
    rw [List.getD_eq_getElem _ _ hlt, hnodup.getElem_inj_iff, Nat.ModEq, Nat.mod_eq_of_lt hv]
  rw [goRound, count_map_range]
  simp only [hpick]
  exact count_residue hpos hv start n

/-- The tallies of two elements differ by at most one. -/
theorem goRound_fair {xs : List α} (hnodup : xs.Nodup) (fallback : α) (start n : ℕ) {x y : α}
    (hx : x ∈ xs) (hy : y ∈ xs) :
    (goRound xs fallback start n).count x ≤ (goRound xs fallback start n).count y + 1 := by
  have hcountx := count_goRound hnodup fallback start n hx
  have hcounty := count_goRound hnodup fallback start n hy
  omega

end Lib
