import Mathlib.Algebra.GroupWithZero.Nat
import Mathlib.Data.Finset.Card
import Mathlib.Data.Fintype.Basic
import Mathlib.Algebra.BigOperators.Group.List.Basic

/-!
# Nested calls of rising rank

A task calls others, and a callee runs as a task of its own if its rank is higher than that
of the caller.  The ranks are bounded, so the work of a task with all the tasks nested in it
is a number, and the tasks nested in one another are no more than there are ranks.

* `work`: the work of a task, by recursion on the distance of its rank to the bound.
* `length_le_card_image`: how deep tasks can be nested.
-/

namespace Lib.NestedCalls

variable {ι : Type}

/-- The work of a task: its own steps, and the work of the callees with a higher rank. -/
def work (bound : ℕ) (rank own : ι → ℕ) (calls : ι → List ι) (i : ι) : ℕ :=
  own i + ((calls i).map fun j =>
    if _h : rank i < rank j ∧ rank j < bound then work bound rank own calls j else 0).sum
termination_by bound - rank i
decreasing_by omega

theorem work_eq {bound : ℕ} {rank own : ι → ℕ} {calls : ι → List ι}
    (hbound : ∀ i, rank i < bound) (i : ι) :
    work bound rank own calls i = own i +
      ((calls i).map fun j => if rank i < rank j then work bound rank own calls j else 0).sum := by
  rw [work]
  simp only [hbound, and_true, dite_eq_ite]

/-- Tasks of rising rank are no more than there are ranks. -/
theorem length_le_card_image {α : Type} [LT α] [Std.Irrefl (α := α) (· < ·)] [DecidableEq α]
    [Fintype ι] {rank : ι → α} {tasks : List ι}
    (hrising : tasks.Pairwise fun inner outer => rank outer < rank inner) :
    tasks.length ≤ (Finset.univ.image rank).card := by
  have hnodup : (tasks.map rank).Nodup := by
    rw [List.nodup_iff_pairwise_ne, List.pairwise_map]
    apply hrising.imp
    intro inner outer hlt hsame
    rw [hsame] at hlt
    exact Std.Irrefl.irrefl _ hlt
  have hsub : (tasks.map rank).toFinset ⊆ Finset.univ.image rank := by
    intro a ha
    obtain ⟨i, -, rfl⟩ := List.mem_map.mp (List.mem_toFinset.mp ha)
    exact Finset.mem_image_of_mem rank (Finset.mem_univ i)
  calc tasks.length = (tasks.map rank).toFinset.card := by
        rw [List.toFinset_card_of_nodup hnodup, List.length_map]
    _ ≤ (Finset.univ.image rank).card := Finset.card_le_card hsub

end Lib.NestedCalls
