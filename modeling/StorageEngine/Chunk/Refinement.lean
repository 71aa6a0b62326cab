import StorageEngine.Chunk.Store
import StorageEngine.Lib.UniqueIndex

/-!
# The chunk store is a map

What a chunk store is for: it holds, for each chunk id, the header and the
payload of the last write.  `ChunkMap` says so without files, paths and
encodings.  This module connects the two.

* `writeChunk_cases`, `writeChunk_files`, `deleteChunk_cases` and `deleteChunk_files`
  say which files one operation changes.  They are the only lemmas here that look into
  the operations.
* `Holds` relates the files to a `ChunkMap`: each chunk file is the encoding of
  the entry.  `readChunk_of_holds` turns that relation into the results of the
  read operations.
* `holds_of_run` carries `Holds` through a run of writes, deletions and
  restarts, and `store_refines_map` is the refinement.
-/

namespace StorageEngine.ChunkStore

open ChunkFormat

/-! ## What one operation does to the chunk files -/

theorem accepts_iff (header : ChunkHeaderData) (payload : Bytes) :
    accepts header payload = true ↔
      header.size.toNat = payload.length ∧
        (header.checksum = [] ∨ Checksum.sha256 payload = header.checksum) := by
  simp [accepts]

@[simp] theorem filledHeader_chunkId (now : TimestampMs) (header : ChunkHeaderData)
    (payload : Bytes) : (filledHeader now header payload).chunkId = header.chunkId := rfl

@[simp] theorem recordWrite_basePath (s : ChunkStore) (chunkId : Str) (size : UInt64) :
    (recordWrite s chunkId size).basePath = s.basePath := rfl

@[simp] theorem recordDelete_basePath (s : ChunkStore) (chunkId : Str) :
    (recordDelete s chunkId).basePath = s.basePath := by
  rw [recordDelete]
  split <;> rfl

/-- Filling the temporary file leaves every chunk file alone. -/
theorem lookup_insert_tmp (files : FileSystem) (base id chunkId : Str) (data : Bytes) :
    (files.insert (tmpPath base chunkId) data).lookup (chunkFilePath base id) =
      files.lookup (chunkFilePath base id) :=
  Finmap.lookup_insert_of_ne _ (chunkFilePath_ne_tmpPath base id chunkId)

theorem lookup_erase_tmp (files : FileSystem) (base id chunkId : Str) :
    (files.erase (tmpPath base chunkId)).lookup (chunkFilePath base id) =
      files.lookup (chunkFilePath base id) :=
  Finmap.lookup_erase_ne (chunkFilePath_ne_tmpPath base id chunkId)

/-- The write passes its checks, and every file call succeeds whose outcome it looks
at. -/
def Completes (io : WriteIO) (header : ChunkHeaderData) (payload : Bytes) : Prop :=
  accepts header payload = true ∧ io.opened = true ∧ io.written = none ∧ io.renamed = true

private theorem discardTmp_lookup (io : WriteIO) (s : ChunkStore) (files : FileSystem)
    (tmp : Str) :
    (discardTmp io s files tmp).1 ≠ some true ∧ (discardTmp io s files tmp).2.1 = s ∧
      ∀ path, path ≠ tmp →
        (discardTmp io s files tmp).2.2.lookup path = files.lookup path := by
  rw [discardTmp]
  split
  · exact ⟨by simp, rfl, fun path hpath => Finmap.lookup_erase_ne hpath⟩
  · exact ⟨by simp, rfl, fun path _ => rfl⟩

/-- A write that does not return `true` changes no file but its temporary one.  A write
that does replaces the chunk file by what the flush has left of the data. -/
theorem writeChunk_cases {io : WriteIO} {now : TimestampMs} {s s' : ChunkStore}
    {files files' : FileSystem} {header : ChunkHeaderData} {payload : Bytes}
    {result : Option Bool}
    (h : writeChunk io now s files header payload = (result, s', files')) :
    (result ≠ some true ∧ s' = s ∧ ∀ path, path ≠ tmpPath s.basePath header.chunkId →
        files'.lookup path = files.lookup path) ∨
      (result = some true ∧ Completes io header payload ∧
        s' = recordWrite s header.chunkId header.size ∧
        files' =
          ((files.insert (tmpPath s.basePath header.chunkId)
            (contentsAfter io.flushed (serialize (filledHeader now header payload) payload))).erase
            (tmpPath s.basePath header.chunkId)).insert (chunkFilePath s.basePath header.chunkId)
              (contentsAfter io.flushed
                (serialize (filledHeader now header payload) payload))) := by
  have hdiscard : ∀ data, discardTmp io s
      (files.insert (tmpPath s.basePath header.chunkId) data)
      (tmpPath s.basePath header.chunkId) = (result, s', files') →
      result ≠ some true ∧ s' = s ∧ ∀ path, path ≠ tmpPath s.basePath header.chunkId →
        files'.lookup path = files.lookup path := by
    intro data hdata
    have hcases := discardTmp_lookup io s
      (files.insert (tmpPath s.basePath header.chunkId) data) (tmpPath s.basePath header.chunkId)
    rw [hdata] at hcases
    refine ⟨hcases.1, hcases.2.1, fun path hpath => ?_⟩
    rw [hcases.2.2 path hpath, Finmap.lookup_insert_of_ne _ hpath]
  rw [writeChunk] at h
  split at h
  · cases h
    exact .inl ⟨by simp, rfl, fun path _ => rfl⟩
  rename_i haccepts
  have haccepts : accepts header payload = true := by simpa using haccepts
  split at h
  · cases h
    exact .inl ⟨by simp, rfl, fun path _ => rfl⟩
  rename_i hopened
  dsimp only at h
  split at h
  · -- the stream reported a failed write
    exact .inl (hdiscard _ h)
  rename_i hwritten
  split at h
  · -- the rename failed
    exact .inl (hdiscard _ h)
  rename_i hrenamed
  cases h
  exact .inr ⟨rfl, ⟨haccepts, by simpa using hopened, by simpa using hwritten,
    by simpa using hrenamed⟩, rfl, rfl⟩

/-- A write that returns `true` replaces one chunk file, and any other write
none. -/
theorem writeChunk_files {io : WriteIO} {now : TimestampMs} {s s' : ChunkStore}
    {files files' : FileSystem} {header : ChunkHeaderData} {payload : Bytes}
    {result : Option Bool} (hflush : io.flushed = none)
    (h : writeChunk io now s files header payload = (result, s', files')) :
    s'.basePath = s.basePath ∧
      (result = some true ∧ accepts header payload = true ∧
          (∀ id, files'.lookup (chunkFilePath s.basePath id) =
            if id = header.chunkId then
              some (serialize (filledHeader now header payload) payload)
            else files.lookup (chunkFilePath s.basePath id)) ∨
        result ≠ some true ∧
          ∀ id, files'.lookup (chunkFilePath s.basePath id) =
            files.lookup (chunkFilePath s.basePath id)) := by
  rcases writeChunk_cases h with ⟨hresult, rfl, hfiles⟩ | ⟨hresult, hcompletes, rfl, rfl⟩
  · exact ⟨rfl, .inr ⟨hresult, fun id => hfiles _ (chunkFilePath_ne_tmpPath _ id _)⟩⟩
  · refine ⟨rfl, .inl ⟨hresult, hcompletes.1, fun id => ?_⟩⟩
    rw [hflush]
    split
    · rename_i hid
      rw [hid]
      exact Finmap.lookup_insert _
    · rename_i hid
      rw [Finmap.lookup_insert_of_ne _ (fun hpath => hid (chunkFilePath_inj hpath)),
        lookup_erase_tmp, lookup_insert_tmp]

/-- A deletion that returns leaves no file of the chunk, and one that throws changes no
file. -/
theorem deleteChunk_cases {io : RemoveIO} {s s' : ChunkStore} {files files' : FileSystem}
    {chunkId : Str} {result : Option Bool}
    (h : deleteChunk io s files chunkId = (result, s', files')) :
    s'.basePath = s.basePath ∧
      (result ≠ none ∧ (∀ id, files'.lookup (chunkFilePath s.basePath id) =
          if id = chunkId then none else files.lookup (chunkFilePath s.basePath id)) ∨
        result = none ∧ files' = files) := by
  have herased : ∀ id, (files.erase (chunkFilePath s.basePath chunkId)).lookup
      (chunkFilePath s.basePath id) =
        if id = chunkId then none else files.lookup (chunkFilePath s.basePath id) := by
    intro id
    split
    · next hid =>
      rw [hid]
      exact Finmap.lookup_erase _ _
    · next hid => exact Finmap.lookup_erase_ne fun hpath => hid (chunkFilePath_inj hpath)
  rw [deleteChunk] at h
  dsimp only at h
  split at h
  · next habsent =>
    cases h
    refine ⟨rfl, .inl ⟨by simp, fun id => ?_⟩⟩
    rw [← herased, Lib.erase_of_notMem habsent]
  · cases io with
    | removed =>
      cases h
      exact ⟨recordDelete_basePath s chunkId, .inl ⟨by simp, herased⟩⟩
    | notFound =>
      cases h
      exact ⟨recordDelete_basePath s chunkId, .inl ⟨by simp, herased⟩⟩
    | failed =>
      cases h
      exact ⟨recordDelete_basePath s chunkId, .inr ⟨rfl, rfl⟩⟩

/-- A deletion that returns `true` removes one chunk file.  One that finds no
file changes none. -/
theorem deleteChunk_files {s s' : ChunkStore} {files files' : FileSystem}
    {chunkId : Str} {result : Option Bool}
    (h : deleteChunk .removed s files chunkId = (result, s', files')) :
    s'.basePath = s.basePath ∧ result = some (chunkExists s files chunkId) ∧
      ∀ id, files'.lookup (chunkFilePath s.basePath id) =
        if id = chunkId then none else files.lookup (chunkFilePath s.basePath id) := by
  have hresult : result = some (chunkExists s files chunkId) := by
    rw [deleteChunk] at h
    dsimp only at h
    split at h
    · next habsent =>
      cases h
      simp [chunkExists, habsent]
    · next hpresent =>
      cases h
      simpa [chunkExists] using hpresent
  obtain ⟨hbase, ⟨-, hfiles⟩ | ⟨hnone, -⟩⟩ := deleteChunk_cases h
  · exact ⟨hbase, hresult, hfiles⟩
  · rw [hresult] at hnone
    cases hnone

/-! ## The abstract store -/

/-- What a chunk store is for: the header and the payload of each chunk. -/
abbrev ChunkMap := Str → Option (ChunkHeaderData × Bytes)

/-- An entry that survives the encoding. -/
def Storable (entry : ChunkHeaderData × Bytes) : Prop :=
  Fits entry.1 ∧ entry.1.size.toNat = entry.2.length ∧
    entry.1.checksum = Checksum.sha256 entry.2

/-- The chunk files under `base` are the encodings of the entries of `m`. -/
def Holds (files : FileSystem) (base : Str) (m : ChunkMap) : Prop :=
  ∀ id, PlainName id →
    files.lookup (chunkFilePath base id) =
        (m id).map (fun entry => serialize entry.1 entry.2) ∧
      ∀ entry, m id = some entry → Storable entry

section Reads

variable {s : ChunkStore} {files : FileSystem} {m : ChunkMap} {id : Str}
  (h : Holds files s.basePath m) (hid : PlainName id)

include h hid

/-- Reading a chunk is reading the map. -/
theorem readChunk_of_holds : readChunk s files id = m id := by
  obtain ⟨hfile, hstorable⟩ := h id hid
  rw [readChunk, hfile]
  cases hm : m id with
  | none => rfl
  | some entry =>
    obtain ⟨hfits, hsize, hchecksum⟩ := hstorable entry hm
    exact deserialize_serialize hfits hsize hchecksum

theorem chunkExists_of_holds : chunkExists s files id = (m id).isSome := by
  obtain ⟨hfile, _⟩ := h id hid
  rw [chunkExists, Bool.eq_iff_iff, decide_eq_true_iff, ← Finmap.lookup_isSome, hfile,
    Option.isSome_map]

theorem verifyChunk_of_holds :
    verifyChunk s files id = match m id with
      | none => (false, none)
      | some (header, _) => (true, some header.checksum) := by
  rw [verifyChunk, readChunk_of_holds h hid]
  cases hm : m id with
  | none => rfl
  | some entry =>
    have hchecksum := ((h id hid).2 entry hm).2.2
    simp only [(Checksum.verify_iff entry.2 entry.1.checksum).mpr hchecksum.symm]

end Reads

/-- The entry of an accepted write survives the encoding. -/
theorem storable_of_accepts {now : TimestampMs} {header : ChunkHeaderData}
    {payload : Bytes} (hchunk : header.chunkId.length < 2 ^ 32)
    (hobject : header.objectId.length < 2 ^ 32) (h : accepts header payload = true) :
    Storable (filledHeader now header payload, payload) := by
  obtain ⟨hsize, hchecksum⟩ := (accepts_iff header payload).mp h
  have hfilled : (filledHeader now header payload).checksum = Checksum.sha256 payload := by
    rcases hchecksum with hempty | hequal
    · simp [filledHeader, hempty]
    · simp [filledHeader, ← hequal, Checksum.sha256_ne_nil]
  refine ⟨⟨hchunk, hobject, ?_⟩, hsize, hfilled⟩
  rw [hfilled, Checksum.sha256_length]
  decide

/-! ## Runs -/

/-- One operation with its result. -/
inductive StoreEvent where
  | wrote (header : ChunkHeaderData) (payload : Bytes) (now : TimestampMs) (result : Bool)
  | deleted (chunkId : Str) (result : Bool)
  | restarted

/-- The chunk that an operation is about. -/
def StoreEvent.chunkId? : StoreEvent → Option Str
  | .wrote header _ _ _ => some header.chunkId
  | .deleted chunkId _ => some chunkId
  | .restarted => none

/-- One operation on the store under `base`, whose file operations succeed.  A
restart destroys the store and constructs a new one on the same directory. -/
inductive StoreStep (base : Str) :
    ChunkStore × FileSystem → StoreEvent → ChunkStore × FileSystem → Prop where
  | write {s s' : ChunkStore} {files files' : FileSystem} {header : ChunkHeaderData}
      {payload : Bytes} {now : TimestampMs} {result : Bool}
      (hplain : PlainName header.chunkId) (hchunk : header.chunkId.length < 2 ^ 32)
      (hobject : header.objectId.length < 2 ^ 32)
      (hwrite : writeChunk .ok now s files header payload = (some result, s', files')) :
      StoreStep base (s, files) (.wrote header payload now result) (s', files')
  | delete {s s' : ChunkStore} {files files' : FileSystem} {chunkId : Str} {result : Bool}
      (hplain : PlainName chunkId)
      (hdelete : deleteChunk .removed s files chunkId = (some result, s', files')) :
      StoreStep base (s, files) (.deleted chunkId result) (s', files')
  | restart {s : ChunkStore} {files : FileSystem} {names : List Str}
      (hnames : ListsDirectory files base names) :
      StoreStep base (s, files) .restarted (construct base files names, files)

/-- A run from an empty directory.  The history has its newest event first. -/
inductive StoreRun (base : Str) : List StoreEvent → ChunkStore × FileSystem → Prop where
  | start {files : FileSystem} (hempty : ListsDirectory files base []) :
      StoreRun base [] (construct base files [], files)
  | step {history : List StoreEvent} {st st' : ChunkStore × FileSystem} {event : StoreEvent}
      (hrun : StoreRun base history st) (hstep : StoreStep base st event st') :
      StoreRun base (event :: history) st'

/-- The entry of the last write of `id` that returned `true` and was not
followed by a deletion of `id`. -/
def lastWrite : List StoreEvent → ChunkMap
  | [], _ => none
  | .wrote header payload now true :: older, id =>
    if id = header.chunkId then some (filledHeader now header payload, payload)
    else lastWrite older id
  | .wrote _ _ _ false :: older, id => lastWrite older id
  | .deleted chunkId _ :: older, id => if id = chunkId then none else lastWrite older id
  | .restarted :: older, id => lastWrite older id

@[simp] theorem construct_basePath (base : Str) (files : FileSystem) (names : List Str) :
    (construct base files names).basePath = base := by
  have hscan : ∀ (names : List Str) (s : ChunkStore),
      (names.foldl (scanFile files) s).basePath = s.basePath := by
    intro names
    induction names with
    | nil => intro s; rfl
    | cons name names ih =>
      intro s
      rw [List.foldl_cons, ih, scanFile]
      split
      · rfl
      · split <;> rfl
  exact hscan names { basePath := base }

theorem chunkFilePath_absent {files : FileSystem} {base id : Str}
    (hempty : ListsDirectory files base []) (hid : PlainName id) :
    files.lookup (chunkFilePath base id) = none := by
  rw [Finmap.lookup_eq_none]
  intro hmem
  have hplain : PlainName (str "chunk_" ++ id ++ str ".data") := by
    simp only [PlainName, List.mem_append, not_or]
    exact ⟨⟨⟨by decide, hid.1⟩, by decide⟩, ⟨⟨by decide, hid.2⟩, by decide⟩⟩
  exact List.not_mem_nil ((hempty.2 _).mpr ⟨by simp [str], hplain, hmem⟩)

/-- One operation moves the files and the map together. -/
theorem holds_step {base : Str} {history : List StoreEvent}
    {s s' : ChunkStore} {files files' : FileSystem} {event : StoreEvent}
    (hbase : s.basePath = base) (hholds : Holds files base (lastWrite history))
    (hstep : StoreStep base (s, files) event (s', files')) :
    s'.basePath = base ∧ Holds files' base (lastWrite (event :: history)) := by
  subst hbase
  cases hstep with
  | @write _ _ _ _ header payload now result hplain hchunk hobject hwrite =>
    obtain ⟨hbase, hfiles⟩ := writeChunk_files rfl hwrite
    refine ⟨hbase, fun id hid => ?_⟩
    rcases hfiles with ⟨hresult, haccepts, hfiles⟩ | ⟨hresult, hfiles⟩
    · cases hresult
      rw [hfiles id, lastWrite]
      split
      · refine ⟨rfl, fun entry hentry => ?_⟩
        cases hentry
        exact storable_of_accepts hchunk hobject haccepts
      · exact hholds id hid
    · cases result with
      | true => exact absurd rfl hresult
      | false =>
        rw [hfiles id, lastWrite]
        exact hholds id hid
  | @delete _ _ _ _ chunkId result hplain hdelete =>
    obtain ⟨hbase, -, hfiles⟩ := deleteChunk_files hdelete
    refine ⟨hbase, fun id hid => ?_⟩
    rw [hfiles id, lastWrite]
    split
    · exact ⟨rfl, fun entry hentry => by cases hentry⟩
    · exact hholds id hid
  | restart hnames => exact ⟨construct_basePath _ _ _, hholds⟩

/-- After any run the files hold the map of the history. -/
theorem holds_of_run {base : Str} {history : List StoreEvent}
    {st : ChunkStore × FileSystem} (hrun : StoreRun base history st) :
    st.1.basePath = base ∧ Holds st.2 base (lastWrite history) := by
  induction hrun with
  | start hempty =>
    refine ⟨construct_basePath _ _ _, fun id hid => ⟨?_, fun entry hentry => by cases hentry⟩⟩
    exact chunkFilePath_absent hempty hid
  | step hrun hstep ih => exact holds_step ih.1 ih.2 hstep

/-- A chunk store is the map of its history: whatever was written, deleted and
restarted, the three read operations answer from the last write, and an
operation on another chunk changes none of the answers. -/
theorem store_refines_map {base : Str} {history : List StoreEvent}
    {st : ChunkStore × FileSystem} (hrun : StoreRun base history st) {id : Str}
    (hid : PlainName id) :
    readChunk st.1 st.2 id = lastWrite history id ∧
      chunkExists st.1 st.2 id = (lastWrite history id).isSome ∧
      verifyChunk st.1 st.2 id = (match lastWrite history id with
        | none => (false, none)
        | some (header, _) => (true, some header.checksum)) ∧
      ∀ event st', StoreStep base st event st' → event.chunkId? ≠ some id →
        readChunk st'.1 st'.2 id = readChunk st.1 st.2 id ∧
          chunkExists st'.1 st'.2 id = chunkExists st.1 st.2 id ∧
          verifyChunk st'.1 st'.2 id = verifyChunk st.1 st.2 id := by
  obtain ⟨hbase, hholds⟩ := holds_of_run hrun
  subst hbase
  refine ⟨readChunk_of_holds hholds hid, chunkExists_of_holds hholds hid,
    verifyChunk_of_holds hholds hid, fun event st' hstep hother => ?_⟩
  obtain ⟨hbase', hholds'⟩ := holds_of_run (hrun.step hstep)
  rw [← hbase'] at hholds'
  have hsame : lastWrite (event :: history) id = lastWrite history id := by
    cases event with
    | wrote header payload now result =>
      have hne : id ≠ header.chunkId := fun h => hother (congrArg some h.symm)
      cases result <;> simp [lastWrite, hne]
    | deleted chunkId result =>
      have hne : id ≠ chunkId := fun h => hother (congrArg some h.symm)
      simp [lastWrite, hne]
    | restarted => rfl
  refine ⟨?_, ?_, ?_⟩
  · rw [readChunk_of_holds hholds' hid, readChunk_of_holds hholds hid, hsame]
  · rw [chunkExists_of_holds hholds' hid, chunkExists_of_holds hholds hid, hsame]
  · rw [verifyChunk_of_holds hholds' hid, verifyChunk_of_holds hholds hid, hsame]

/-- A chunk without checksum and time is written, the store is restarted, and the
chunk is read back. -/
theorem store_refines_map_restart :
    let header : ChunkHeaderData :=
      { chunkId := str "c1", objectId := str "o", size := 2 }
    ∃ st, StoreRun (str "/data") [.restarted, .wrote header [1, 2] 7 true] st ∧
      readChunk st.1 st.2 (str "c1") = some (filledHeader 7 header [1, 2], [1, 2]) := by
  intro header
  have hempty : ListsDirectory ∅ (str "/data") [] := by
    refine ⟨List.nodup_nil, fun name => ?_⟩
    simp [Finmap.notMem_empty]
  have hwrite := @StoreStep.write (str "/data") (construct (str "/data") ∅ []) _ ∅ _ header
    [1, 2] 7 true (by decide) (by decide) (by decide) rfl
  have hnames : ∀ tmp data, ListsDirectory
      ((((∅ : FileSystem).insert tmp data).erase tmp).insert
        (chunkFilePath (str "/data") (str "c1")) data) (str "/data") [str "chunk_c1.data"] := by
    intro tmp data
    refine ⟨List.nodup_singleton _, fun name => ?_⟩
    rw [Finmap.mem_insert, Finmap.mem_erase, Finmap.mem_insert, List.mem_singleton]
    constructor
    · rintro rfl
      exact ⟨by decide, by decide, .inl (by decide)⟩
    · rintro ⟨-, -, hpath | ⟨hne, htmp | hnone⟩⟩
      · exact joinPath_inj hpath
      · exact absurd htmp hne
      · exact absurd hnone Finmap.notMem_empty
  have hrun := ((StoreRun.start hempty).step hwrite).step (.restart (hnames _ _))
  exact ⟨_, hrun, (store_refines_map hrun (by decide)).1⟩

end StorageEngine.ChunkStore
