import Mathlib.Data.List.Basic
import Mathlib.Algebra.Group.Int.Defs

/-!
# Loops over arrays that are not initialised

A language that does not test an index leaves it to the program to stay inside its arrays,
and to read no slot before it is written.  Here both are tested: `read` and `write` have no
result otherwise.

* `filled` is an array whose first slots are written, in their order; what it reads and
  where it is written next is all that a loop that fills it needs.
* `foldlM_simulates` is the rule for a counting loop: a body with tests that simulates one
  without them makes a loop with tests that simulates the one without.
-/

namespace Lib.CheckedArray

variable {α σ τ : Type}

/-- An array.  A slot that was not written has no value. -/
abbrev Slots (α : Type) := List (Option α)

/-- The value of a slot, at an index that may be negative. -/
def read (w : Slots α) : ℤ → Option α
  | .ofNat i => w[i]?.join
  | .negSucc _ => none

def write (w : Slots α) (i : ℕ) (value : α) : Option (Slots α) :=
  if i < w.length then some (w.set i (some value)) else none

/-- The array of a size whose first slots have these values. -/
def filled (size : ℕ) (values : List α) : Slots α :=
  values.map some ++ List.replicate (size - values.length) none

theorem getElem?_eq_getD {values : List α} {i : ℕ} (hi : i < values.length) (fallback : α) :
    values[i]? = some (values.getD i fallback) := by
  rw [List.getD_eq_getElem?_getD, List.getElem?_eq_getElem hi, Option.getD_some]

theorem read_filled {values : List α} {i : ℕ} (hi : i < values.length) (size : ℕ) (fallback : α) :
    read (filled size values) i = some (values.getD i fallback) := by
  show (filled size values)[i]?.join = _
  rw [filled, List.getElem?_append_left (by simpa using hi), List.getElem?_map,
    getElem?_eq_getD hi fallback]
  rfl

/-- The slot after the written ones is the next to be written. -/
theorem write_filled {size : ℕ} {values : List α} (hroom : values.length < size) (value : α) :
    write (filled size values) values.length value = some (filled size (values ++ [value])) := by
  have hlength : (filled size values).length = size := by
    simp [filled]
    omega
  have hslots : size - values.length = size - (values.length + 1) + 1 := by omega
  rw [write, hlength, if_pos hroom, filled, List.set_append_right _ _ (by simp), List.length_map,
    Nat.sub_self, hslots, List.replicate_succ, List.set_cons_zero]
  simp [filled]

/-- A loop that writes the slots in their order. -/
theorem foldlM_fill {size turns : ℕ} (hroom : turns ≤ size) {value : ℕ → Option α} {f : ℕ → α}
    (hvalue : ∀ i < turns, value i = some (f i)) :
    (List.range turns).foldlM (fun w i => do write w i (← value i)) (filled size []) =
      some (filled size ((List.range turns).map f)) := by
  induction turns with
  | zero => rfl
  | succ turns ih =>
    have hwrite := write_filled
      (show ((List.range turns).map f).length < size by
        rw [List.length_map, List.length_range]
        omega) (f turns)
    rw [List.length_map, List.length_range] at hwrite
    rw [List.range_succ, List.foldlM_append,
      ih (by omega) (fun i hi => hvalue i (by omega)), List.map_append]
    simp [hvalue turns (by omega), hwrite]

section Loops

variable (next : σ → ℕ → σ)

/-- A counting loop whose turns simulate those of a loop that cannot fail does not fail, and it
ends where that one does. -/
theorem foldlM_simulates {first turns : ℕ} (turn : τ → ℕ → Option τ) (Rep : ℕ → σ → τ → Prop)
    (hturn : ∀ i s t, first ≤ i → i < first + turns → Rep i s t →
      ∃ t', turn t i = some t' ∧ Rep (i + 1) (next s i) t')
    {s : σ} {t : τ} (hstart : Rep first s t) :
    ∃ t', (List.range' first turns).foldlM turn t = some t' ∧
      Rep (first + turns) ((List.range' first turns).foldl next s) t' := by
  induction turns with
  | zero => exact ⟨t, rfl, hstart⟩
  | succ turns ih =>
    obtain ⟨mid, hmid, hrep⟩ :=
      ih (fun i s t hfirst hlast => hturn i s t hfirst (by omega))
    obtain ⟨last, hlast, hend⟩ :=
      hturn (first + turns) _ mid (by omega) (by omega) hrep
    rw [List.range'_concat, Nat.one_mul, List.foldlM_append, List.foldl_append, hmid]
    refine ⟨last, ?_, hend⟩
    show (turn mid (first + turns)).bind some = some last
    rw [hlast]
    rfl

/-- The tests of a loop are superfluous where each of its turns passes them. -/
theorem foldlM_eq_some {turns : ℕ} {turn : σ → ℕ → Option σ}
    (hturn : ∀ i < turns, ∀ s, turn s i = some (next s i)) (s : σ) :
    (List.range turns).foldlM turn s = some ((List.range turns).foldl next s) := by
  obtain ⟨last, hlast, hend⟩ := foldlM_simulates next turn (fun _ s t => t = s)
    (fun i s t _ hi hsame => by
      rw [Nat.zero_add] at hi
      rw [hsame]
      exact ⟨next s i, hturn i hi s, rfl⟩)
    (show s = s from rfl)
  rw [List.range_eq_range', hlast, hend]

end Loops

end Lib.CheckedArray
