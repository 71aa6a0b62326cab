import Mathlib.Data.List.Basic

/-!
# Lexical normal forms of paths

A path is cut into names at the separators.  Its normal form has neither empty names nor
dots, and two dots cancel the name before them; what is left of them climbs out of a
relative path, and is dropped at the root.  A separator at the end does not count.

* `normalize_append`: a path inside a directory continues from the normal form of the
  directory.
* `splitOn_append_suffix`: a suffix without a separator changes the last name only.
-/

namespace Lib.LexicalPath

variable {α : Type} [DecidableEq α]

/-- A normal form: whether it starts at the root, and its names, the last one first. -/
structure NormalPath (α : Type) where
  rooted : Bool
  names : List (List α)
  deriving DecidableEq

/-- The names after one more name. -/
def push (dot : α) (rooted : Bool) (names : List (List α)) (name : List α) : List (List α) :=
  if name = [] ∨ name = [dot] then names
  else if name = [dot, dot] then
    match names with
    | [] => if rooted = true then [] else [[dot, dot]]
    | top :: rest => if top = [dot, dot] then name :: top :: rest else rest
  else name :: names

def normalize (sep dot : α) (path : List α) : NormalPath α :=
  let rooted := path.head? == some sep
  { rooted, names := (path.splitOn sep).foldl (push dot rooted) [] }

/-- The name of a file or a directory, and not a way to one. -/
def Ordinary (dot : α) (name : List α) : Prop :=
  name ≠ [] ∧ name ≠ [dot] ∧ name ≠ [dot, dot]

/-- The path names an entry of the directory. -/
def DirectlyInside (dot : α) (dir path : NormalPath α) : Prop :=
  path.rooted = dir.rooted ∧ ∃ name, Ordinary dot name ∧ path.names = name :: dir.names

variable {sep dot : α}

theorem push_ordinary {rooted : Bool} {names : List (List α)} {name : List α}
    (h : Ordinary dot name) : push dot rooted names name = name :: names := by
  obtain ⟨hne, hdot, hdots⟩ := h
  unfold push
  rw [if_neg (not_or.mpr ⟨hne, hdot⟩), if_neg hdots]

/-- A separator at the end of a directory does not count. -/
theorem normalize_concat_sep {dir : List α} (hdir : dir ≠ []) :
    normalize sep dot (dir ++ [sep]) = normalize sep dot dir := by
  have hhead : (dir ++ [sep]).head? = dir.head? := List.head?_append_of_ne_nil dir hdir
  unfold normalize
  dsimp only
  rw [hhead, List.splitOn_append_cons_self, List.splitOn_nil, List.foldl_append]
  rfl

/-- A path that continues from a directory. -/
theorem normalize_append (dir path : List α) :
    normalize sep dot (dir ++ sep :: path) =
      { rooted := (normalize sep dot (dir ++ [sep])).rooted
        names := (path.splitOn sep).foldl (push dot (normalize sep dot (dir ++ [sep])).rooted)
          (normalize sep dot (dir ++ [sep])).names } := by
  have hhead : (dir ++ sep :: path).head? = (dir ++ [sep]).head? := by
    cases dir <;> rfl
  unfold normalize
  dsimp only
  rw [hhead, List.splitOn_append_cons_self, List.splitOn_append_cons_self, List.splitOn_nil,
    List.foldl_append, List.foldl_append]
  rfl

/-- A suffix without a separator goes to the last name. -/
theorem splitOn_append_suffix {suffix : List α} (h : sep ∉ suffix) (path : List α) :
    ∃ dirs last, path.splitOn sep = dirs ++ [last] ∧
      (path ++ suffix).splitOn sep = dirs ++ [last ++ suffix] := by
  induction path with
  | nil => exact ⟨[], [], List.splitOn_nil sep, List.splitOn_eq_singleton h⟩
  | cons c path ih =>
    obtain ⟨dirs, last, hpath, hsuffix⟩ := ih
    rw [List.cons_append, List.splitOn_cons_eq_if_modifyHead, List.splitOn_cons_eq_if_modifyHead,
      hpath, hsuffix]
    by_cases hc : (c == sep) = true
    · rw [if_pos hc, if_pos hc]
      exact ⟨[] :: dirs, last, rfl, rfl⟩
    · rw [if_neg hc, if_neg hc]
      cases dirs with
      | nil => exact ⟨[], c :: last, rfl, rfl⟩
      | cons first dirs => exact ⟨(c :: first) :: dirs, last, rfl, rfl⟩

end Lib.LexicalPath
