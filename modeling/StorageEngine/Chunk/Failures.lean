import StorageEngine.Chunk.Accounting

/-!
# Failing file operations

What is left of the files and of the statistics when a file operation of a chunk store
fails.

* `writeChunk_kept_iff`: when a write that returns `true` is on disk.  The stream is
  flushed by its destructor, behind the last check, and a rename succeeds whatever the
  flush has left.
* `writeChunk_rejected`: a write that returns `false` changes nothing, even if the
  temporary file is still there.
* `deleteChunk_whole_iff`: when a deletion does everything or nothing.  The statistics
  are updated before the file is removed, and an exception of the removal leaves them so.
-/

namespace StorageEngine.ChunkStore

open ChunkFormat

/-! ## A write that is reported -/

/-- The flush in the destructor of the stream loses nothing of the data. -/
def FlushKeeps (io : WriteIO) (data : Bytes) : Prop :=
  ∀ n, io.flushed = some n → data.length ≤ n

theorem contentsAfter_eq_iff (io : WriteIO) (data : Bytes) :
    contentsAfter io.flushed data = data ↔ FlushKeeps io data :=
  contentsAfter_eq_self_iff io.flushed data

/-- A write that completes returns `true`, with what is flushed in the chunk file. -/
theorem writeChunk_of_completes {io : WriteIO} (now : TimestampMs) (s : ChunkStore)
    (files : FileSystem) {header : ChunkHeaderData} {payload : Bytes}
    (h : Completes io header payload) :
    ∃ s' files', writeChunk io now s files header payload = (some true, s', files') ∧
      s'.basePath = s.basePath ∧
      files'.lookup (chunkFilePath s.basePath header.chunkId) =
        some (contentsAfter io.flushed (serialize (filledHeader now header payload) payload)) := by
  obtain ⟨haccepts, hopened, hwritten, hrenamed⟩ := h
  obtain ⟨result, s', files', hwrite⟩ : ∃ result s' files',
      writeChunk io now s files header payload = (result, s', files') := ⟨_, _, _, rfl⟩
  have hresult : result = some true := by
    have hfirst := congrArg Prod.fst hwrite
    simpa [writeChunk, haccepts, hopened, hwritten, hrenamed] using hfirst.symm
  rw [hresult] at hwrite
  refine ⟨s', files', hwrite, ?_⟩
  rcases writeChunk_cases hwrite with ⟨hfailed, -, -⟩ | ⟨-, -, hstore, hfiles⟩
  · exact absurd rfl hfailed
  · rw [hstore, hfiles]
    exact ⟨rfl, Finmap.lookup_insert _⟩

/-- The encoding of an accepted write is read as that write exactly when the ids fit
their length prefixes. -/
theorem deserialize_accepted_iff {now : TimestampMs} {header : ChunkHeaderData}
    {payload : Bytes} (haccepts : accepts header payload = true) :
    deserialize (serialize (filledHeader now header payload) payload) =
        some (filledHeader now header payload, payload) ↔
      header.chunkId.length < 2 ^ 32 ∧ header.objectId.length < 2 ^ 32 := by
  constructor
  · intro hread
    have hfits := (serialize_of_deserialize hread).1.fits
    exact ⟨hfits.1, hfits.2.1⟩
  · intro hids
    obtain ⟨hfits, hsize, hchecksum⟩ := @storable_of_accepts now _ _ hids.1 hids.2 haccepts
    exact deserialize_serialize hfits hsize hchecksum

/-- If the write returns `true`, then the chunk file is the encoding of the chunk, and
the chunk is read back. -/
def Kept (io : WriteIO) (now : TimestampMs) (s : ChunkStore) (files : FileSystem)
    (header : ChunkHeaderData) (payload : Bytes) : Prop :=
  ∀ s' files', writeChunk io now s files header payload = (some true, s', files') →
    files'.lookup (chunkFilePath s.basePath header.chunkId) =
        some (serialize (filledHeader now header payload) payload) ∧
      readChunk s' files' header.chunkId = some (filledHeader now header payload, payload)

/-- A write that is reported as successful is on disk exactly when it is not reported as
successful, or the flush behind the last check loses nothing and the ids fit their length
prefixes. -/
theorem writeChunk_kept_iff (io : WriteIO) (now : TimestampMs) (s : ChunkStore)
    (files : FileSystem) (header : ChunkHeaderData) (payload : Bytes) :
    Kept io now s files header payload ↔
      (Completes io header payload →
        FlushKeeps io (serialize (filledHeader now header payload) payload) ∧
          header.chunkId.length < 2 ^ 32 ∧ header.objectId.length < 2 ^ 32) := by
  constructor
  · intro hkept hcompletes
    obtain ⟨s', files', hwrite, -, hfile⟩ := writeChunk_of_completes now s files hcompletes
    obtain ⟨hdata, hread⟩ := hkept s' files' hwrite
    rw [hfile, Option.some.injEq] at hdata
    refine ⟨(contentsAfter_eq_iff io _).mp hdata, ?_⟩
    have hbase : s'.basePath = s.basePath := by
      rcases writeChunk_cases hwrite with ⟨hresult, -, -⟩ | ⟨-, -, rfl, -⟩
      · exact absurd rfl hresult
      · rfl
    rw [readChunk, hbase, hfile, hdata] at hread
    exact (deserialize_accepted_iff hcompletes.1).mp hread
  · intro hcond s' files' hwrite
    rcases writeChunk_cases hwrite with ⟨hresult, -, -⟩ | ⟨-, hcompletes, rfl, rfl⟩
    · exact absurd rfl hresult
    · obtain ⟨hflush, hids⟩ := hcond hcompletes
      rw [(contentsAfter_eq_iff io _).mpr hflush]
      refine ⟨Finmap.lookup_insert _, ?_⟩
      rw [readChunk, recordWrite_basePath, Finmap.lookup_insert]
      exact (deserialize_accepted_iff hcompletes.1).mpr hids

/-- The disk is full when the destructor flushes: the write returns `true`, and the chunk
file is empty and not read. -/
theorem writeChunk_lost_in_flush : ∃ s' files',
    writeChunk { flushed := some 0 } 7 { basePath := str "/data" } ∅
        { chunkId := str "c1", size := 1 } [9] = (some true, s', files') ∧
      files'.lookup (chunkFilePath (str "/data") (str "c1")) = some [] ∧
      readChunk s' files' (str "c1") = none := by
  have hcompletes : Completes { flushed := some 0 } { chunkId := str "c1", size := 1 } [9] :=
    ⟨by decide, rfl, rfl, rfl⟩
  obtain ⟨s', files', hwrite, hbase, hfile⟩ :=
    writeChunk_of_completes 7 { basePath := str "/data" } ∅ hcompletes
  have hempty : files'.lookup (chunkFilePath (str "/data") (str "c1")) = some [] := by
    rw [hfile]
    simp only [contentsAfter, List.take_zero]
  refine ⟨s', files', hwrite, hempty, ?_⟩
  rw [readChunk, hbase, hempty]
  rfl

/-! ## A write that is refused -/

/-- The stores that can be constructed on a directory. -/
def Constructs (files : FileSystem) (base : Str) (s : ChunkStore) : Prop :=
  ∃ names, ListsDirectory files base names ∧ construct base files names = s

/-- The name of the temporary file of a chunk. -/
def tmpName (chunkId : Str) : Str :=
  fileName chunkId ++ str ".tmp"

theorem tmpPath_eq (base chunkId : Str) :
    tmpPath base chunkId = joinPath base (tmpName chunkId) := by
  rw [tmpPath, chunkFilePath_eq, tmpName, joinPath, joinPath]
  split <;> simp

/-- The constructor skips a temporary file. -/
theorem scanFile_tmp (files : FileSystem) (s : ChunkStore) (chunkId : Str) :
    scanFile files s (tmpName chunkId) = s := by
  have hlast : (tmpName chunkId).getLast? = some 112 := by
    simp [tmpName, List.getLast?_append, show (str ".tmp").getLast? = some 112 from rfl]
  have hsuffix : (tmpName chunkId).drop ((tmpName chunkId).length - 5) ≠ str ".data" := by
    intro hdata
    have hdrop := congrArg List.getLast? hdata
    rw [List.getLast?_drop, hlast] at hdrop
    split at hdrop
    · cases hdrop
    · exact absurd hdrop (by decide)
  rw [scanFile, if_pos (.inr hsuffix)]

@[simp] theorem scanFile_basePath (files : FileSystem) (s : ChunkStore) (name : Str) :
    (scanFile files s name).basePath = s.basePath := by
  rw [scanFile]
  split
  · rfl
  · split <;> rfl

section Leftover

variable {base chunkId : Str} {files left : FileSystem}
  (hagree : ∀ path, path ≠ tmpPath base chunkId → left.lookup path = files.lookup path)

include hagree

/-- The constructor's loop makes no difference between two file systems that differ in a
temporary file. -/
theorem scan_agrees (names : List Str) {s : ChunkStore} (hbase : s.basePath = base) :
    names.foldl (scanFile left) s =
      (names.filter fun name => name ≠ tmpName chunkId).foldl (scanFile files) s := by
  induction names generalizing s with
  | nil => rw [List.filter_nil, List.foldl_nil, List.foldl_nil]
  | cons name names ih =>
    rw [List.foldl_cons, List.filter_cons]
    by_cases hname : name = tmpName chunkId
    · rw [if_neg (by simpa using hname), hname, scanFile_tmp]
      exact ih hbase
    · have hpath : joinPath base name ≠ tmpPath base chunkId := by
        intro hsame
        rw [tmpPath_eq] at hsame
        exact hname (joinPath_inj hsame)
      have hscan : scanFile left s name = scanFile files s name := by
        unfold scanFile
        rw [hbase, hagree _ hpath]
      rw [if_pos (by simpa using hname), List.foldl_cons, hscan]
      exact ih ((scanFile_basePath files s name).trans hbase)

/-- What can be constructed with a temporary file can be constructed without it, and the
other way round. -/
theorem Constructs.of_agrees {s : ChunkStore} (h : Constructs left base s) :
    Constructs files base s := by
  obtain ⟨names, hnames, hconstruct⟩ := h
  -- the listing of the other directory: the temporary file is last, if it is there
  let last := if PlainName (tmpName chunkId) ∧ tmpPath base chunkId ∈ files then
    [tmpName chunkId] else []
  have hlast : ∀ name, name ∈ last ↔
      name = tmpName chunkId ∧ PlainName name ∧ joinPath base name ∈ files := by
    intro name
    by_cases hfile : PlainName (tmpName chunkId) ∧ tmpPath base chunkId ∈ files
    · simp only [last, if_pos hfile, List.mem_singleton]
      constructor
      · intro hname
        rw [hname, ← tmpPath_eq]
        exact ⟨rfl, hfile⟩
      · exact fun hname => hname.1
    · simp only [last, if_neg hfile, List.not_mem_nil, false_iff, not_and]
      intro hname hplain hmem
      rw [hname] at hplain hmem
      rw [← tmpPath_eq] at hmem
      exact hfile ⟨hplain, hmem⟩
  refine ⟨(names.filter fun name => name ≠ tmpName chunkId) ++ last, ⟨?_, ?_⟩, ?_⟩
  · refine List.Nodup.append (hnames.1.filter _) ?_ ?_
    · simp only [last]
      split
      · exact List.nodup_singleton _
      · exact List.nodup_nil
    · intro name hfirst hsecond
      have hne := (List.mem_filter.mp hfirst).2
      simp [((hlast name).mp hsecond).1] at hne
  · intro name
    rw [List.mem_append, List.mem_filter, hlast, hnames.2]
    by_cases hname : name = tmpName chunkId
    · have hne : name ≠ [] := by
        rw [hname]
        exact List.append_ne_nil_of_right_ne_nil _ (by decide)
      simp only [hname, ne_eq, not_true_eq_false, decide_false, Bool.false_eq_true, and_false,
        true_and, false_or] at hne ⊢
      simp only [hne, not_false_eq_true, true_and]
    · have hpath : joinPath base name ≠ tmpPath base chunkId := by
        intro hsame
        rw [tmpPath_eq] at hsame
        exact hname (joinPath_inj hsame)
      have hmem : joinPath base name ∈ left ↔ joinPath base name ∈ files := by
        rw [← Finmap.lookup_isSome, ← Finmap.lookup_isSome, hagree _ hpath]
      simp [hname, hmem]
  · rw [← hconstruct, construct, construct, List.foldl_append,
      scan_agrees hagree names (rfl : ({ basePath := base } : ChunkStore).basePath = base)]
    simp only [last]
    split
    · rw [List.foldl_cons, List.foldl_nil, scanFile_tmp]
    · rfl

end Leftover

/-- A write that returns `false` leaves the statistics and all chunk files as they were.
The next store on the directory is one that could have been constructed before the write,
whatever has become of the temporary file. -/
theorem writeChunk_rejected {io : WriteIO} {now : TimestampMs} {s s' : ChunkStore}
    {files files' : FileSystem} {header : ChunkHeaderData} {payload : Bytes}
    (h : writeChunk io now s files header payload = (some false, s', files')) :
    s' = s ∧
      (∀ id, files'.lookup (chunkFilePath s.basePath id) =
        files.lookup (chunkFilePath s.basePath id)) ∧
      ∀ left : FileSystem, (∀ path, path ≠ tmpPath s.basePath header.chunkId →
          left.lookup path = files'.lookup path) →
        (∀ id, left.lookup (chunkFilePath s.basePath id) =
          files.lookup (chunkFilePath s.basePath id)) ∧
        ∀ next, Constructs left s.basePath next ↔ Constructs files s.basePath next := by
  rcases writeChunk_cases h with ⟨-, hstore, hfiles⟩ | ⟨hresult, -, -, -⟩
  · have hchunk : ∀ id, files'.lookup (chunkFilePath s.basePath id) =
        files.lookup (chunkFilePath s.basePath id) := by
      intro id
      exact hfiles _ (chunkFilePath_ne_tmpPath _ id _)
    refine ⟨hstore, hchunk, fun left hleft => ?_⟩
    have hagree : ∀ path, path ≠ tmpPath s.basePath header.chunkId →
        left.lookup path = files.lookup path := by
      intro path hpath
      rw [hleft path hpath, hfiles path hpath]
    refine ⟨fun id => hagree _ (chunkFilePath_ne_tmpPath _ id _), fun next => ⟨?_, ?_⟩⟩
    · exact Constructs.of_agrees hagree
    · exact Constructs.of_agrees fun path hpath => (hagree path hpath).symm
  · cases hresult

/-- An overwrite whose rename fails: the previous version of the chunk is still there. -/
theorem writeChunk_rejected_rename :
    let s : ChunkStore := { basePath := str "/data" }
    let files := (∅ : FileSystem).insert (chunkFilePath (str "/data") (str "c1")) [1]
    ∃ files', writeChunk { renamed := false } 7 s files { chunkId := str "c1", size := 1 } [9] =
        (some false, s, files') ∧
      files'.lookup (chunkFilePath (str "/data") (str "c1")) = some [1] := by
  intro s files
  refine ⟨_, rfl, ?_⟩
  have hkept := (@writeChunk_rejected { renamed := false } 7 s s files _
    { chunkId := str "c1", size := 1 } [9] rfl).2.1 (str "c1")
  rw [show s.basePath = str "/data" from rfl] at hkept
  rw [hkept]
  exact Finmap.lookup_insert _

/-! ## A deletion -/

/-- The file is gone, and so are the id and the size in the statistics. -/
def Deleted (s s' : ChunkStore) (files' : FileSystem) (chunkId : Str) : Prop :=
  chunkFilePath s.basePath chunkId ∉ files' ∧ s'.chunkSizes = s.chunkSizes.erase chunkId ∧
    s'.totalStored = s.totalStored - (s.chunkSizes.lookup chunkId).getD 0

/-- A deletion has done everything or nothing. -/
def Whole (io : RemoveIO) (s : ChunkStore) (files : FileSystem) (chunkId : Str) : Prop :=
  ∀ result s' files', deleteChunk io s files chunkId = (result, s', files') →
    Deleted s s' files' chunkId ∨ (files' = files ∧ s' = s)

theorem recordDelete_sizes (s : ChunkStore) (chunkId : Str) :
    (recordDelete s chunkId).chunkSizes = s.chunkSizes.erase chunkId ∧
      (recordDelete s chunkId).totalStored =
        s.totalStored - (s.chunkSizes.lookup chunkId).getD 0 := by
  unfold recordDelete
  cases hold : s.chunkSizes.lookup chunkId with
  | none =>
    rw [Lib.erase_of_notMem (Finmap.lookup_eq_none.mp hold)]
    simp
  | some old => exact ⟨rfl, rfl⟩

theorem recordDelete_eq_iff (s : ChunkStore) (chunkId : Str) :
    recordDelete s chunkId = s ↔ chunkId ∉ s.chunkSizes := by
  constructor
  · intro hsame
    rw [← hsame, (recordDelete_sizes s chunkId).1]
    exact Finmap.notMem_erase_self
  · intro habsent
    rw [recordDelete, Finmap.lookup_eq_none.mpr habsent]

/-- A deletion does everything or nothing, except when the removal of the file of a
tracked chunk throws. -/
theorem deleteChunk_whole_iff (io : RemoveIO) (s : ChunkStore) (files : FileSystem)
    (chunkId : Str) :
    Whole io s files chunkId ↔
      ¬ (chunkFilePath s.basePath chunkId ∈ files ∧ chunkId ∈ s.chunkSizes ∧
        io = .failed) := by
  have hgone : Deleted s (recordDelete s chunkId)
      (files.erase (chunkFilePath s.basePath chunkId)) chunkId :=
    ⟨Finmap.notMem_erase_self, recordDelete_sizes s chunkId⟩
  constructor
  · intro hwhole ⟨hfile, htracked, hfailed⟩
    have hdelete : deleteChunk io s files chunkId = (none, recordDelete s chunkId, files) := by
      simp [deleteChunk, hfile, hfailed]
    rcases hwhole _ _ _ hdelete with ⟨hremoved, -, -⟩ | ⟨-, hsame⟩
    · exact hremoved hfile
    · exact (recordDelete_eq_iff s chunkId).mp hsame htracked
  · intro hcond result s' files' hdelete
    rw [deleteChunk] at hdelete
    dsimp only at hdelete
    split at hdelete
    · cases hdelete
      exact .inr ⟨rfl, rfl⟩
    · next hfile =>
      rw [not_not] at hfile
      cases io with
      | removed =>
        cases hdelete
        exact .inl hgone
      | notFound =>
        cases hdelete
        exact .inl hgone
      | failed =>
        cases hdelete
        have huntracked : chunkId ∉ s.chunkSizes := fun htracked => hcond ⟨hfile, htracked, rfl⟩
        exact .inr ⟨rfl, (recordDelete_eq_iff s chunkId).mpr huntracked⟩

/-- The removal throws for a chunk of one byte: the file is there, and the statistics of
the store are empty. -/
theorem deleteChunk_not_whole :
    let s : ChunkStore :=
      { basePath := str "/data", chunkSizes := (∅ : UnorderedMap Str UInt64).insert (str "c1") 1,
        totalStored := 1 }
    let files := (∅ : FileSystem).insert (chunkFilePath (str "/data") (str "c1")) [9]
    ¬ Whole .failed s files (str "c1") ∧
      deleteChunk .failed s files (str "c1") = (none, { basePath := str "/data" }, files) := by
  intro s files
  have hfile : chunkFilePath s.basePath (str "c1") ∈ files :=
    (Finmap.mem_insert).mpr (.inl rfl)
  have hsizes : (recordDelete s (str "c1")) = { basePath := str "/data" } := by
    unfold recordDelete
    rw [show s.chunkSizes.lookup (str "c1") = some 1 from Finmap.lookup_insert _]
    decide
  have hdelete : deleteChunk .failed s files (str "c1") =
      (none, { basePath := str "/data" }, files) := by
    simp [deleteChunk, hfile, hsizes]
  refine ⟨fun hwhole => ?_, hdelete⟩
  rcases hwhole _ _ _ hdelete with ⟨hremoved, -, -⟩ | ⟨-, hsame⟩
  · exact hremoved hfile
  · have htotal := congrArg ChunkStore.totalStored hsame
    exact absurd htotal (by decide)

end StorageEngine.ChunkStore
