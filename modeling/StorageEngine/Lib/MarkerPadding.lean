import Mathlib.Data.List.DropRight

/-!
# Padding after a marker

A message is padded with a marker and then a run of one filler, and the marker is not the
filler.  The run may have any length, so the last value that is not the filler is the marker:
the message can be read back without its length.
-/

namespace Lib.MarkerPadding

variable {α : Type} {marker filler : α}

/-- The message, the marker and the run of the filler. -/
def pad (marker filler : α) (fillers : ℕ) (msg : List α) : List α :=
  msg ++ [marker] ++ List.replicate fillers filler

variable [DecidableEq α]

/-- The values before the last one that is not the filler, which has to be the marker. -/
def unpad (marker filler : α) (padded : List α) : Option (List α) :=
  let marked := padded.rdropWhile (· = filler)
  if marked.getLast? = some marker then some marked.dropLast else none

/-- The run is dropped, and the marker stops it. -/
theorem rdropWhile_pad (hmarker : marker ≠ filler) (fillers : ℕ) (msg : List α) :
    (pad marker filler fillers msg).rdropWhile (· = filler) = msg ++ [marker] := by
  induction fillers with
  | zero =>
    rw [pad, List.replicate_zero, List.append_nil]
    exact List.rdropWhile_concat_neg _ _ _ (by simpa using hmarker)
  | succ fillers ih =>
    rw [pad, List.replicate_succ', ← List.append_assoc,
      List.rdropWhile_concat_pos _ _ _ (by simp)]
    exact ih

theorem unpad_pad (hmarker : marker ≠ filler) (fillers : ℕ) (msg : List α) :
    unpad marker filler (pad marker filler fillers msg) = some msg := by
  rw [unpad, rdropWhile_pad hmarker, List.getLast?_concat, if_pos rfl, List.dropLast_concat]

end Lib.MarkerPadding
