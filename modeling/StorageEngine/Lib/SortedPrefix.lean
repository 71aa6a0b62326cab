import Mathlib.Algebra.BigOperators.Group.List.Basic
import Mathlib.Algebra.Order.Monoid.Defs
import Mathlib.Data.List.Perm.Subperm

/-!
# The beginning of a sorted list

Of all choices of so many elements of a list that is sorted by a weight, its beginning has
the smallest total weight.  Few elements weigh less than one of the beginning.
-/

namespace Lib

variable {α M : Type} [AddCommMonoid M] [PartialOrder M] [IsOrderedAddMonoid M]

/-- An element that is chosen behind the head can be exchanged for the head. -/
theorem sum_take_le_of_sublist {w : α → M} {l : List α} (hsorted : l.Pairwise (w · ≤ w ·))
    {chosen : List α} (hchosen : chosen.Sublist l) :
    ((l.take chosen.length).map w).sum ≤ (chosen.map w).sum := by
  induction l generalizing chosen with
  | nil =>
    rw [List.sublist_nil.mp hchosen]
    simp
  | cons a l ih =>
    rw [List.pairwise_cons] at hsorted
    cases chosen with
    | nil => simp
    | cons b rest =>
      -- the head is chosen, or `b` is exchanged for it
      have hrest : rest.Sublist l ∧ w a ≤ w b := by
        cases hchosen with
        | cons _ hsub =>
          exact ⟨(List.sublist_cons_self b rest).trans hsub,
            hsorted.1 b (hsub.subset List.mem_cons_self)⟩
        | cons_cons _ hsub => exact ⟨hsub, le_refl _⟩
      simp only [List.length_cons, List.take_succ_cons, List.map_cons, List.sum_cons]
      exact add_le_add hrest.2 (ih hsorted.2 hrest.1)

theorem sum_take_le {w : α → M} {l : List α} (hsorted : l.Pairwise (w · ≤ w ·))
    {chosen : List α} (hchosen : chosen.Subperm l) :
    ((l.take chosen.length).map w).sum ≤ (chosen.map w).sum := by
  obtain ⟨ordered, hperm, hsub⟩ := hchosen
  rw [← hperm.length_eq, ← (hperm.map w).sum_eq]
  exact sum_take_le_of_sublist hsorted hsub

/-- Fewer than `n` elements weigh less than one of the first `n`. -/
theorem countP_lt_of_mem_take {W : Type} [LinearOrder W] {w : α → W} {l : List α}
    (hsorted : l.Pairwise (w · ≤ w ·)) {n : ℕ} {a : α} (ha : a ∈ l.take n) :
    l.countP (fun b => decide (w b < w a)) < n := by
  induction l generalizing n with
  | nil => simp at ha
  | cons b l ih =>
    rw [List.pairwise_cons] at hsorted
    cases n with
    | zero => simp at ha
    | succ n =>
      rw [List.take_succ_cons, List.mem_cons] at ha
      rcases ha with rfl | ha
      · have hnone : l.countP (fun b => decide (w b < w a)) = 0 := by
          rw [List.countP_eq_zero]
          intro c hc
          simpa using hsorted.1 c hc
        rw [List.countP_cons_of_neg (by simp), hnone]
        omega
      · have hrest := ih hsorted.2 ha
        have hone := List.countP_cons (p := fun b => decide (w b < w a)) (a := b) (l := l)
        split at hone <;> omega

end Lib
