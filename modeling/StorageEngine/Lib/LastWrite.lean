import Mathlib.Data.List.Induction

/-!
# The last write wins

A state has a value for each key, and a write sets the value of one key.  After any writes,
a key has the value of the last one that sets it.
-/

namespace Lib.LastWrite

variable {σ κ ν α : Type}

/-- Writes that set the value of their key, on states that are nothing but their values. -/
structure Writes (get : σ → κ → ν) (write : σ → α → σ) (key : α → κ) (value : α → ν) : Prop where
  get_self : ∀ s a, get (write s a) (key a) = value a
  get_other : ∀ s a k, k ≠ key a → get (write s a) k = get s k
  ext : ∀ s s', (∀ k, get s k = get s' k) → s = s'

variable [DecidableEq κ]

/-- The last write of a key. -/
def lastWrite (key : α → κ) (k : κ) (writes : List α) : Option α :=
  (writes.filter fun a => key a = k).getLast?

/-- Of writes in two parts, the first part counts for the keys that the second does not write. -/
theorem lastWrite_append (key : α → κ) (k : κ) (first second : List α) :
    lastWrite key k (first ++ second) = (lastWrite key k second).or (lastWrite key k first) := by
  rw [lastWrite, List.filter_append, List.getLast?_append]
  rfl

/-- Where each key is looked up once, its last write is what its own lookup gives. -/
theorem lastWrite_filterMap {key : α → κ} {keys : List κ} (hnodup : keys.Nodup)
    {lookup : κ → Option α} (hkey : ∀ k a, lookup k = some a → key a = k) (k : κ) :
    lastWrite key k (keys.filterMap lookup) = if k ∈ keys then lookup k else none := by
  induction keys with
  | nil => rfl
  | cons first keys ih =>
    obtain ⟨hfirst, hrest⟩ := List.nodup_cons.mp hnodup
    have hsplit : (first :: keys).filterMap lookup =
        (lookup first).toList ++ keys.filterMap lookup := by
      rw [List.filterMap_cons]
      cases lookup first <;> rfl
    rw [hsplit, lastWrite_append, ih hrest]
    by_cases hk : k = first
    · subst hk
      rw [if_neg hfirst, Option.none_or, if_pos List.mem_cons_self]
      cases hlookup : lookup k with
      | none => rfl
      | some a => simp [lastWrite, hkey k a hlookup]
    · have hnone : lastWrite key k (lookup first).toList = none := by
        cases hlookup : lookup first with
        | none => rfl
        | some a => simp [lastWrite, hkey first a hlookup, Ne.symm hk]
      rw [hnone, Option.or_none]
      exact if_congr (by simp [hk]) rfl rfl

variable {get : σ → κ → ν} {write : σ → α → σ} {key : α → κ} {value : α → ν}

theorem Writes.get_foldl (h : Writes get write key value) (s : σ) (writes : List α) (k : κ) :
    get (writes.foldl write s) k = ((lastWrite key k writes).map value).getD (get s k) := by
  induction writes using List.reverseRecOn with
  | nil => rfl
  | append_singleton writes a ih =>
    rw [List.foldl_append, List.foldl_cons, List.foldl_nil, lastWrite, List.filter_append]
    by_cases hkey : key a = k
    · subst hkey
      simp [h.get_self]
    · rw [h.get_other _ _ _ (Ne.symm hkey), ih, lastWrite]
      simp [hkey]

/-- The writes leave the state as it is exactly when the last one of each key sets the value
that is there. -/
theorem Writes.foldl_eq_self_iff (h : Writes get write key value) (s : σ) (writes : List α) :
    writes.foldl write s = s ↔ ∀ k a, lastWrite key k writes = some a → value a = get s k := by
  constructor
  · intro hsame k a hlast
    have hget := h.get_foldl s writes k
    rw [hsame, hlast] at hget
    exact hget.symm
  · intro hlast
    apply h.ext
    intro k
    rw [h.get_foldl]
    cases hk : lastWrite key k writes with
    | none => rfl
    | some a => exact hlast k a hk

end Lib.LastWrite
