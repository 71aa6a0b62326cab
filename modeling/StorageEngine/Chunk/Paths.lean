import StorageEngine.Lib.LexicalPath
import StorageEngine.Chunk.Failures

/-!
# Where the chunks are

`chunk_file_path` puts the id of a chunk into a path as it is, and the id comes from the
network.  An id with a separator names directories, and with two dots it can name any file.

* `lexicallyNormal_chunkFilePath` and `lexicallyNormal_tmpPath`: the normal forms of the
  paths of a chunk.
* `confined_iff`: which two ids have different files in the base directory.
* `confined_of_no_separator`: all ids without a separator have.
-/

namespace StorageEngine.ChunkStore

open Lib.LexicalPath

/-- `fs::path::lexically_normal`, on a path with `/` and without a separator at the end. -/
def lexicallyNormal (path : Str) : NormalPath UInt8 :=
  Lib.LexicalPath.normalize 47 46 path

/-- The names in the path of a chunk relative to the base directory, without the suffix. -/
def pathNames (chunkId : Str) : List Str :=
  (str "chunk_" ++ chunkId).splitOn 47

/-- The directories among them. -/
def dirNames (chunkId : Str) : List Str :=
  (pathNames chunkId).dropLast

/-- The name of the file among them. -/
def lastName (chunkId : Str) : Str :=
  (pathNames chunkId).getLast (List.splitOn_ne_nil 47 _)

/-- The directories in the id lead back to the base directory. -/
def LeadsBack (base chunkId : Str) : Prop :=
  (dirNames chunkId).foldl (push 46 (lexicallyNormal base).rooted) (lexicallyNormal base).names =
    (lexicallyNormal base).names

/-- The chunks have different files in the base directory, and neither has the temporary
file of the other. -/
structure Confined (base a b : Str) : Prop where
  inside : DirectlyInside 46 (lexicallyNormal base) (lexicallyNormal (chunkFilePath base a))
  inside' : DirectlyInside 46 (lexicallyNormal base) (lexicallyNormal (chunkFilePath base b))
  different : lexicallyNormal (chunkFilePath base a) ≠ lexicallyNormal (chunkFilePath base b)
  temporary : lexicallyNormal (chunkFilePath base a) ≠ lexicallyNormal (tmpPath base b)
  temporary' : lexicallyNormal (chunkFilePath base b) ≠ lexicallyNormal (tmpPath base a)

/-- A relative path, from the base directory on. -/
theorem lexicallyNormal_joinPath (base : Str) {name : Str} (hname : name.head? ≠ some 47) :
    lexicallyNormal (joinPath base name) =
      { rooted := (lexicallyNormal base).rooted
        names := (name.splitOn 47).foldl (push 46 (lexicallyNormal base).rooted)
          (lexicallyNormal base).names } := by
  unfold joinPath lexicallyNormal
  by_cases hnil : base = []
  · subst hnil
    have hrooted : (name.head? == some 47) = false := beq_eq_false_iff_ne.mpr hname
    rw [if_pos (Or.inl rfl), List.nil_append, Lib.LexicalPath.normalize, hrooted]
    rfl
  · by_cases hlast : base.getLast? = some 47
    · obtain ⟨dir, rfl⟩ := List.getLast?_eq_some_iff.mp hlast
      rw [if_pos (Or.inr hlast), List.append_assoc]
      exact normalize_append dir name
    · rw [if_neg (not_or.mpr ⟨hnil, hlast⟩), ← normalize_concat_sep hnil, List.append_assoc]
      exact normalize_append base name

/-- The path of a chunk's file with any suffix: its last name takes the suffix. -/
theorem lexicallyNormal_suffix (base chunkId : Str) {suffix : Str} (hsep : 47 ∉ suffix)
    (hlong : 3 ≤ suffix.length) :
    lexicallyNormal (joinPath base (str "chunk_" ++ chunkId ++ suffix)) =
      { rooted := (lexicallyNormal base).rooted
        names := (lastName chunkId ++ suffix) :: (dirNames chunkId).foldl
          (push 46 (lexicallyNormal base).rooted) (lexicallyNormal base).names } := by
  obtain ⟨dirs, last, hnames, hsuffix⟩ := splitOn_append_suffix hsep (str "chunk_" ++ chunkId)
  have hdirs : dirNames chunkId = dirs := by
    rw [dirNames, pathNames, hnames, List.dropLast_concat]
  have hlast : lastName chunkId = last := by
    simp only [lastName, pathNames, hnames, List.getLast_concat]
  have hordinary : Ordinary 46 (last ++ suffix) := by
    refine ⟨?_, ?_, ?_⟩
    all_goals
      intro h
      have hlength := congrArg List.length h
      simp only [List.length_append, List.length_cons, List.length_nil] at hlength
      omega
  rw [lexicallyNormal_joinPath base (by simp [str]), hsuffix, List.foldl_append,
    List.foldl_cons, List.foldl_nil, push_ordinary hordinary, hdirs, hlast]

theorem lexicallyNormal_chunkFilePath (base chunkId : Str) :
    lexicallyNormal (chunkFilePath base chunkId) =
      { rooted := (lexicallyNormal base).rooted
        names := (lastName chunkId ++ str ".data") :: (dirNames chunkId).foldl
          (push 46 (lexicallyNormal base).rooted) (lexicallyNormal base).names } :=
  lexicallyNormal_suffix base chunkId (by decide) (by decide)

theorem lexicallyNormal_tmpPath (base chunkId : Str) :
    lexicallyNormal (tmpPath base chunkId) =
      { rooted := (lexicallyNormal base).rooted
        names := (lastName chunkId ++ str ".data.tmp") :: (dirNames chunkId).foldl
          (push 46 (lexicallyNormal base).rooted) (lexicallyNormal base).names } := by
  rw [tmpPath_eq, tmpName, fileName, List.append_assoc _ (str ".data")]
  exact lexicallyNormal_suffix base chunkId (by decide) (by decide)

/-- The file of a chunk is in the base directory exactly when the directories in its id lead
back there. -/
theorem inside_iff {base chunkId : Str} :
    DirectlyInside 46 (lexicallyNormal base) (lexicallyNormal (chunkFilePath base chunkId)) ↔
      LeadsBack base chunkId := by
  rw [lexicallyNormal_chunkFilePath]
  constructor
  · intro h
    obtain ⟨-, name, -, hnames⟩ := h
    exact (List.cons.inj hnames).2
  · intro h
    refine ⟨rfl, _, ⟨?_, ?_, ?_⟩, congrArg _ h⟩
    all_goals
      intro hname
      have hlength := congrArg List.length hname
      simp [str] at hlength

/-- No chunk has the temporary file of another one. -/
theorem lexicallyNormal_ne_tmpPath (base a b : Str) :
    lexicallyNormal (chunkFilePath base a) ≠ lexicallyNormal (tmpPath base b) := by
  rw [lexicallyNormal_chunkFilePath, lexicallyNormal_tmpPath]
  intro h
  have hnames := (List.cons.inj (congrArg NormalPath.names h)).1
  have hlast := congrArg List.getLast? hnames
  simp [str] at hlast

/-- Two ids have different files in the base directory exactly when the directories in both
lead back there and the names after them are different. -/
theorem confined_iff (base a b : Str) :
    Confined base a b ↔ LeadsBack base a ∧ LeadsBack base b ∧ lastName a ≠ lastName b := by
  constructor
  · intro h
    have ha := inside_iff.mp h.inside
    have hb := inside_iff.mp h.inside'
    refine ⟨ha, hb, fun hlast => h.different ?_⟩
    rw [lexicallyNormal_chunkFilePath, lexicallyNormal_chunkFilePath, ha, hb, hlast]
  · intro h
    obtain ⟨ha, hb, hlast⟩ := h
    refine ⟨inside_iff.mpr ha, inside_iff.mpr hb, fun hsame => hlast ?_,
      lexicallyNormal_ne_tmpPath base a b, lexicallyNormal_ne_tmpPath base b a⟩
    rw [lexicallyNormal_chunkFilePath, lexicallyNormal_chunkFilePath] at hsame
    exact List.append_cancel_right (List.cons.inj (congrArg NormalPath.names hsame)).1

/-- Distinct ids without a separator have different files in the base directory. -/
theorem confined_of_no_separator {base a b : Str} (ha : 47 ∉ a) (hb : 47 ∉ b) (hne : a ≠ b) :
    Confined base a b := by
  have hnames : ∀ {chunkId : Str}, 47 ∉ chunkId →
      pathNames chunkId = [str "chunk_" ++ chunkId] := by
    intro chunkId h
    apply List.splitOn_eq_singleton
    rw [List.mem_append, not_or]
    exact ⟨by decide, h⟩
  have hback : ∀ {chunkId : Str}, 47 ∉ chunkId → LeadsBack base chunkId := by
    intro chunkId h
    rw [LeadsBack, dirNames, hnames h]
    rfl
  have hlast : ∀ {chunkId : Str}, 47 ∉ chunkId → lastName chunkId = str "chunk_" ++ chunkId := by
    intro chunkId h
    simp only [lastName, hnames h, List.getLast_singleton]
  rw [confined_iff, hlast ha, hlast hb]
  exact ⟨hback ha, hback hb, fun h => hne (List.append_cancel_left h)⟩

/-- The name of the file comes after the last separator. -/
theorem lastName_append_sep (p q : Str) :
    lastName (p ++ 47 :: q) = (q.splitOn 47).getLast (List.splitOn_ne_nil 47 q) := by
  have hnames : pathNames (p ++ 47 :: q) = (str "chunk_" ++ p).splitOn 47 ++ q.splitOn 47 := by
    rw [pathNames, ← List.append_assoc, List.splitOn_append_cons_self]
  simp only [lastName, hnames]
  exact List.getLast_append_of_ne_nil _ (List.splitOn_ne_nil 47 q)

/-- An id with a separator has the file of another id, or one outside of the base
directory. -/
theorem exists_not_confined (base : Str) {a : Str} (h : 47 ∈ a) :
    ∃ b, a ≠ b ∧ ¬Confined base a b := by
  obtain ⟨p, q, rfl⟩ := List.append_of_mem h
  refine ⟨(p ++ [47, 46]) ++ 47 :: q, ?_, ?_⟩
  · intro hsame
    have hlength := congrArg List.length hsame
    simp at hlength
  · rw [confined_iff]
    intro hconfined
    apply hconfined.2.2
    rw [lastName_append_sep, lastName_append_sep]

/-- Which ids have different files in the base directory: those whose directories lead back
there and whose names after them are different.  These are all ids without a separator, and
an id with one fails beside some other id. -/
theorem chunk_paths_confined (base : Str) :
    (∀ a b, Confined base a b ↔
      LeadsBack base a ∧ LeadsBack base b ∧ lastName a ≠ lastName b) ∧
    (∀ a b, a ≠ b → 47 ∉ a → 47 ∉ b → Confined base a b) ∧
    ∀ a, 47 ∈ a → ∃ b, a ≠ b ∧ ¬Confined base a b :=
  ⟨confined_iff base, fun _ _ hne ha hb => confined_of_no_separator ha hb hne,
    fun _ h => exists_not_confined base h⟩

/-- Two ids with one file, and an id with a file outside of the base directory. -/
theorem chunk_paths_not_confined :
    ¬Confined (str "/data") (str "x/../y") (str "x/.././y") ∧
      ¬Confined (str "/data") (str "x/../../etc/y") (str "c1") := by
  constructor
  · intro h
    exact h.different (by decide)
  · intro h
    obtain ⟨-, name, -, hnames⟩ := h.inside
    have houtside :
        (lexicallyNormal (chunkFilePath (str "/data") (str "x/../../etc/y"))).names.tail =
          (lexicallyNormal (str "/data")).names := congrArg List.tail hnames
    exact absurd houtside (by decide)

end StorageEngine.ChunkStore
