import Mathlib.Data.Finmap
import Mathlib.Algebra.BigOperators.Group.Multiset.Basic
import StorageEngine.Lib.UniqueIndex

/-!
# The total of a map

The sum of a weight over the rows of a finite map, and what one insertion or one
removal does to it.  The table of a list of rows has the first row of each key;
`shadowed` is the weight of the others.
-/

namespace Lib

variable {K V M : Type*} [DecidableEq K] [AddCommMonoid M]

/-- The sum of the weights of all rows. -/
def total (weight : V → M) (table : Finmap fun _ : K => V) : M :=
  (table.entries.map fun row => weight row.2).sum

omit [DecidableEq K] in
@[simp] theorem total_empty (weight : V → M) : total weight (∅ : Finmap fun _ : K => V) = 0 :=
  rfl

theorem total_insert_of_notMem (weight : V → M) {table : Finmap fun _ : K => V} {key : K}
    (h : key ∉ table) (row : V) :
    total weight (table.insert key row) = weight row + total weight table := by
  rw [total, Finmap.entries_insert_of_notMem h, Multiset.map_cons, Multiset.sum_cons, total]

/-- A row that is taken out and put back. -/
theorem insert_erase_of_lookup {table : Finmap fun _ : K => V} {key : K} {row : V}
    (h : table.lookup key = some row) : (table.erase key).insert key row = table := by
  refine Finmap.ext_lookup fun key' => ?_
  by_cases hkey : key' = key
  · rw [hkey, Finmap.lookup_insert, h]
  · rw [Finmap.lookup_insert_of_ne _ hkey, Finmap.lookup_erase_ne hkey]

/-- Removing a row takes its weight away. -/
theorem total_erase (weight : V → M) {table : Finmap fun _ : K => V} {key : K} {row : V}
    (h : table.lookup key = some row) :
    weight row + total weight (table.erase key) = total weight table := by
  rw [← total_insert_of_notMem weight Finmap.notMem_erase_self, insert_erase_of_lookup h]

/-- A new row takes the place of the one that had its key. -/
theorem total_insert (weight : V → M) (table : Finmap fun _ : K => V) (key : K) (row : V) :
    total weight (table.insert key row) = weight row + total weight (table.erase key) := by
  rw [← total_insert_of_notMem weight Finmap.notMem_erase_self]
  congr 1
  refine Finmap.ext_lookup fun key' => ?_
  by_cases hkey : key' = key
  · rw [hkey, Finmap.lookup_insert, Finmap.lookup_insert]
  · rw [Finmap.lookup_insert_of_ne _ hkey, Finmap.lookup_insert_of_ne _ hkey,
      Finmap.lookup_erase_ne hkey]

/-- The weights of the rows of a list behind an earlier row with the same key: each
row shadows the next one with its key. -/
def shadowed (weight : V → M) : List (Σ _ : K, V) → M
  | [] => 0
  | row :: rest => (rest.dlookup row.1).elim 0 weight + shadowed weight rest

/-- The table of a list has the rows that are not shadowed. -/
theorem total_toFinmap (weight : V → M) (rows : List (Σ _ : K, V)) :
    total weight rows.toFinmap + shadowed weight rows = (rows.map fun row => weight row.2).sum := by
  induction rows with
  | nil =>
    rw [shadowed, add_zero]
    rfl
  | cons row rest ih =>
    have hrest : total weight (rest.toFinmap.erase row.1) +
        (rest.dlookup row.1).elim 0 weight = total weight rest.toFinmap := by
      rw [← Finmap.dlookup_list_toFinmap]
      cases hlookup : rest.toFinmap.lookup row.1 with
      | none => rw [erase_of_notMem (Finmap.lookup_eq_none.mp hlookup), Option.elim_none, add_zero]
      | some old => rw [Option.elim_some, add_comm, total_erase weight hlookup]
    calc total weight (row :: rest).toFinmap + shadowed weight (row :: rest)
        = weight row.2 + total weight (rest.toFinmap.erase row.1) +
            ((rest.dlookup row.1).elim 0 weight + shadowed weight rest) := by
          rw [shadowed, Finmap.toFinmap_cons, total_insert]
      _ = weight row.2 + (total weight (rest.toFinmap.erase row.1) +
            (rest.dlookup row.1).elim 0 weight + shadowed weight rest) := by
          rw [add_assoc, add_assoc]
      _ = ((row :: rest).map fun row => weight row.2).sum := by
          rw [hrest, ih, List.map_cons, List.sum_cons]

end Lib
