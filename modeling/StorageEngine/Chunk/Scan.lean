import Mathlib.Data.UInt
import StorageEngine.Chunk.Failures

/-!
# The directory scan

The constructor keys a file by the id in its header, and `read_chunk` looks for the file
that is named for the id.  It adds the sizes of all files that it accepts, also of those
whose id it has seen before.

`foundChunks` are the files that the constructor accepts, and `construct_found` says what
it makes of them.  `construct_sound_iff` compares them with the files that are read.
-/

namespace StorageEngine.ChunkStore

open ChunkFormat Lib

/-! ## What the constructor finds -/

/-- The chunk in the file called `name`, if the constructor accepts it. -/
def scannedChunk (files : FileSystem) (base name : Str) : Option (ChunkHeaderData × Bytes) :=
  if name.length < 10 ∨ name.drop (name.length - 5) ≠ str ".data" then none
  else deserialize ((files.lookup (joinPath base name)).getD [])

/-- The chunks in a directory that lists `names`, the last one first. -/
def foundChunks (files : FileSystem) (base : Str) (names : List Str) :
    List (ChunkHeaderData × Bytes) :=
  (names.filterMap (scannedChunk files base)).reverse

/-- The id and the size in the header of a chunk. -/
def headerRow (chunk : ChunkHeaderData × Bytes) : Σ _ : Str, UInt64 :=
  ⟨chunk.1.chunkId, chunk.1.size⟩

theorem scanFile_eq (files : FileSystem) (s : ChunkStore) (name : Str) :
    scanFile files s name =
      match scannedChunk files s.basePath name with
      | none => s
      | some chunk =>
        { s with
          chunkSizes := s.chunkSizes.insert chunk.1.chunkId chunk.1.size
          totalStored := s.totalStored + chunk.1.size } := by
  unfold scanFile scannedChunk
  split
  · rfl
  · cases deserialize ((files.lookup (joinPath s.basePath name)).getD []) with
    | none => rfl
    | some chunk => rfl

/-- The constructor tables the rows of the chunks that it finds, and adds up all their
sizes. -/
theorem construct_found (files : FileSystem) (base : Str) (names : List Str) :
    (construct base files names).chunkSizes =
        ((foundChunks files base names).map headerRow).toFinmap ∧
      (construct base files names).totalStored = UInt64.ofNat
        (((foundChunks files base names).map headerRow).map fun row => row.2.toNat).sum := by
  induction names using List.reverseRecOn with
  | nil => exact ⟨rfl, rfl⟩
  | append_singleton names name ih =>
    have hlast : construct base files (names ++ [name]) =
        scanFile files (construct base files names) name := by
      rw [construct, construct, List.foldl_append, List.foldl_cons, List.foldl_nil]
    rw [hlast, scanFile_eq, construct_basePath, foundChunks, List.filterMap_append]
    cases hchunk : scannedChunk files base name with
    | none =>
      simp only [List.filterMap_cons_none hchunk, List.filterMap_nil, List.append_nil]
      exact ih
    | some chunk =>
      simp only [List.filterMap_cons_some hchunk, List.filterMap_nil, List.reverse_append,
        List.reverse_cons, List.reverse_nil, List.nil_append, List.singleton_append,
        List.map_cons, List.sum_cons]
      constructor
      · rw [Finmap.toFinmap_cons, ih.1]
        rfl
      · rw [ih.2, UInt64.ofNat_add, UInt64.add_comm, headerRow, UInt64.ofNat_toNat]
        rfl

/-! ## The files that are read -/

/-- The last chunk that the constructor finds under an id. -/
def lastFound (files : FileSystem) (base : Str) (names : List Str) (chunkId : Str) :
    Option (ChunkHeaderData × Bytes) :=
  (foundChunks files base names).find? fun chunk => chunk.1.chunkId = chunkId

/-- The bytes of the chunks whose entry is overwritten, because the constructor finds
another one with their id later. -/
def overwrittenBytes (files : FileSystem) (base : Str) (names : List Str) : ℕ :=
  shadowed UInt64.toNat ((foundChunks files base names).map headerRow)

/-- The statistics of a store are those of the chunks that it reads. -/
structure Sound (files : FileSystem) (s : ChunkStore) : Prop where
  stored : s.totalStored = UInt64.ofNat (storedBytes s)
  sizes : ∀ id, (s.chunkSizes.lookup id).map UInt64.toNat =
    (readChunk s files id).map fun chunk => chunk.2.length

theorem length_of_scannedChunk {files : FileSystem} {base name : Str}
    {chunk : ChunkHeaderData × Bytes} (h : scannedChunk files base name = some chunk) :
    chunk.1.size.toNat = chunk.2.length := by
  rw [scannedChunk] at h
  split at h
  · cases h
  · exact (serialize_of_deserialize h).1.size

/-- The row of an id comes from the first chunk with it. -/
theorem dlookup_headerRow {chunks : List (ChunkHeaderData × Bytes)}
    (hsizes : ∀ chunk ∈ chunks, chunk.1.size.toNat = chunk.2.length) (chunkId : Str) :
    ((chunks.map headerRow).dlookup chunkId).map UInt64.toNat =
      (chunks.find? fun chunk => chunk.1.chunkId = chunkId).map fun chunk => chunk.2.length := by
  induction chunks with
  | nil => rfl
  | cons chunk chunks ih =>
    rw [List.forall_mem_cons] at hsizes
    by_cases hid : chunk.1.chunkId = chunkId
    · subst hid
      rw [List.map_cons, headerRow, List.dlookup_cons_eq, List.find?_cons_of_pos (by simp)]
      exact congrArg some hsizes.1
    · rw [List.map_cons, headerRow, List.dlookup_cons_ne _ _ (Ne.symm hid),
        List.find?_cons_of_neg (by simpa using hid)]
      exact ih hsizes.2

/-- The entry of an id is the size of the last chunk found under it. -/
theorem lookup_found (files : FileSystem) (base : Str) (names : List Str) (chunkId : Str) :
    ((construct base files names).chunkSizes.lookup chunkId).map UInt64.toNat =
      (lastFound files base names chunkId).map fun chunk => chunk.2.length := by
  rw [(construct_found files base names).1, Finmap.dlookup_list_toFinmap]
  apply dlookup_headerRow
  intro chunk hchunk
  rw [foundChunks, List.mem_reverse, List.mem_filterMap] at hchunk
  obtain ⟨name, -, hname⟩ := hchunk
  exact length_of_scannedChunk hname

/-- The total of the constructor is that of its table, and the bytes whose entry is
overwritten. -/
theorem totalStored_found (files : FileSystem) (base : Str) (names : List Str) :
    (construct base files names).totalStored =
      UInt64.ofNat (storedBytes (construct base files names) +
        overwrittenBytes files base names) := by
  obtain ⟨hsizes, hstored⟩ := construct_found files base names
  rw [hstored, storedBytes, hsizes, overwrittenBytes, total_toFinmap]

theorem ofNat_add_eq_iff (n m : ℕ) :
    UInt64.ofNat (n + m) = UInt64.ofNat n ↔ 2 ^ 64 ∣ m := by
  rw [← UInt64.toNat_inj, UInt64.toNat_ofNat', UInt64.toNat_ofNat']
  omega

/-- The statistics after a scan are those of the chunks that are read exactly when, for
each id, the last file found under it and the file named for it have payloads of one
length, or there is neither; and when the sizes that are overwritten sum up to nothing in
64 bits. -/
theorem construct_sound_iff (files : FileSystem) (base : Str) (names : List Str) :
    Sound files (construct base files names) ↔
      (∀ id, (lastFound files base names id).map (fun chunk => chunk.2.length) =
        (readChunk { basePath := base } files id).map fun chunk => chunk.2.length) ∧
      2 ^ 64 ∣ overwrittenBytes files base names := by
  have hread : ∀ id, readChunk (construct base files names) files id =
      readChunk { basePath := base } files id := by
    intro id
    rw [readChunk, readChunk, construct_basePath]
  constructor
  · intro hsound
    refine ⟨fun id => ?_, ?_⟩
    · rw [← lookup_found, hsound.sizes id, hread]
    · rw [← ofNat_add_eq_iff, ← totalStored_found]
      exact hsound.stored
  · intro hfiles
    refine ⟨?_, fun id => ?_⟩
    · rw [totalStored_found, (ofNat_add_eq_iff _ _).mpr hfiles.2]
    · rw [lookup_found, hfiles.1 id, hread]

/-- A store with the statistics of the map that the files hold is sound, when no file of a
subdirectory passes for that of a chunk. -/
theorem Counts.sound {m : ChunkMap} {s : ChunkStore} {files : FileSystem} (h : Counts m s)
    (hholds : Holds files s.basePath m) (hkeyed : Keyed m)
    (hplain : ∀ id, chunkFilePath s.basePath id ∈ files → PlainName id) : Sound files s where
  stored := h.stored
  sizes id := by
    rw [h.sizes id]
    by_cases hid : PlainName id
    · rw [readChunk_of_holds hholds hid]
      cases hentry : m id with
      | none => rfl
      | some entry => exact congrArg some ((hholds id hid).2 entry hentry).2.1
    · have hnone : m id = none := by
        by_contra hsome
        obtain ⟨entry, hentry⟩ := Option.ne_none_iff_exists'.mp hsome
        exact hid (hkeyed id entry hentry).1
      have habsent : chunkFilePath s.basePath id ∉ files := fun hfile => hid (hplain id hfile)
      rw [hnone, readChunk, Finmap.lookup_eq_none.mpr habsent]
      rfl

/-- A chunk that is found twice counts twice in the total, and once in the table. -/
theorem construct_twice {files : FileSystem} {base : Str} {names : List Str}
    {chunk : ChunkHeaderData × Bytes} (hfound : foundChunks files base names = [chunk, chunk]) :
    (construct base files names).totalStored = chunk.1.size + chunk.1.size ∧
      storedBytes (construct base files names) = chunk.1.size.toNat := by
  obtain ⟨hsizes, hstored⟩ := construct_found files base names
  rw [hfound] at hsizes hstored
  constructor
  · rw [hstored]
    simp [headerRow, UInt64.ofNat_add]
  · have hsum := total_toFinmap UInt64.toNat ([chunk, chunk].map headerRow)
    have hshadowed : shadowed UInt64.toNat ([chunk, chunk].map headerRow) =
        chunk.1.size.toNat := by
      simp [shadowed, headerRow]
    rw [← hsizes, hshadowed] at hsum
    simp only [headerRow, List.map_cons, List.map_nil, List.sum_cons, List.sum_nil,
      Nat.add_zero] at hsum
    exact Nat.add_right_cancel hsum

/-- The encoding of a chunk of one byte. -/
theorem exists_one_byte : ∃ data header, deserialize data = some (header, [9]) ∧
    header.chunkId = str "a" ∧ header.size = 1 := by
  obtain ⟨header, hid, hsize, hread⟩ := @exists_encoding (str "a") [] [9] (by decide)
    (by decide) (by decide)
  exact ⟨_, header, hread, hid, hsize⟩

/-- A chunk of one byte with a copy of its file under another name: the total has two
bytes, and the table one. -/
theorem construct_counts_copy : ∃ files names,
    ListsDirectory files (str "/data") names ∧
      (construct (str "/data") files names).totalStored = 2 ∧
      storedBytes (construct (str "/data") files names) = 1 ∧
      ¬ Sound files (construct (str "/data") files names) := by
  obtain ⟨data, header, hread, -, hsize⟩ := exists_one_byte
  let files : FileSystem :=
    ((∅ : FileSystem).insert (str "/data/chunk_a.data") data).insert (str "/data/copy_a.data") data
  have hfound : foundChunks files (str "/data") [str "chunk_a.data", str "copy_a.data"] =
      [(header, [9]), (header, [9])] := by
    have hfirst : scannedChunk files (str "/data") (str "chunk_a.data") = some (header, [9]) := by
      rw [scannedChunk, if_neg (by decide), show joinPath (str "/data") (str "chunk_a.data") =
        str "/data/chunk_a.data" by decide, Finmap.lookup_insert_of_ne _ (by decide),
        Finmap.lookup_insert]
      exact hread
    have hsecond : scannedChunk files (str "/data") (str "copy_a.data") = some (header, [9]) := by
      rw [scannedChunk, if_neg (by decide), show joinPath (str "/data") (str "copy_a.data") =
        str "/data/copy_a.data" by decide, Finmap.lookup_insert]
      exact hread
    simp only [foundChunks, List.filterMap_cons, List.filterMap_nil, hfirst, hsecond,
      List.reverse_cons, List.reverse_nil, List.nil_append, List.singleton_append]
  obtain ⟨htotal, hstored⟩ := construct_twice hfound
  rw [hsize] at htotal hstored
  refine ⟨files, _, ⟨by decide, fun name => ?_⟩, htotal, hstored, fun hsound => ?_⟩
  · have hcopy : joinPath (str "/data") (str "copy_a.data") = str "/data/copy_a.data" := by decide
    have hchunk : joinPath (str "/data") (str "chunk_a.data") = str "/data/chunk_a.data" := by
      decide
    rw [Finmap.mem_insert, Finmap.mem_insert, ← hcopy, ← hchunk, List.mem_cons, List.mem_singleton]
    constructor
    · intro hname
      rcases hname with hname | hname
      · subst hname
        exact ⟨by decide, by decide, .inr (.inl rfl)⟩
      · subst hname
        exact ⟨by decide, by decide, .inl rfl⟩
    · intro hname
      obtain ⟨-, -, hpath | hpath | hnone⟩ := hname
      · exact .inr (joinPath_inj hpath)
      · exact .inl (joinPath_inj hpath)
      · exact absurd hnone Finmap.notMem_empty
  · have hsame := hsound.stored
    rw [htotal, hstored] at hsame
    exact absurd hsame (by decide)

end StorageEngine.ChunkStore
