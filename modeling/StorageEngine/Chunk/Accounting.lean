import StorageEngine.Chunk.Canonical
import StorageEngine.Chunk.Refinement
import StorageEngine.Lib.MapTotal

/-!
# The statistics of a chunk store

`chunk_sizes_` and `total_stored_` are updated by each operation, and rebuilt from the
files by the constructor.  Both are the statistics of the map that the store is
(`ChunkMap`): `Counts` says so for the store, and `Lists` says which files the
constructor finds.
-/

namespace StorageEngine.ChunkStore

open ChunkFormat Lib

/-- The sum of `chunk_sizes_`, which `total_stored_` holds in 64 bits. -/
def storedBytes (s : ChunkStore) : ℕ :=
  total UInt64.toNat s.chunkSizes

/-- The statistics are those of the map. -/
structure Counts (m : ChunkMap) (s : ChunkStore) : Prop where
  sizes : ∀ id, s.chunkSizes.lookup id = (m id).map fun entry => entry.1.size
  stored : s.totalStored = UInt64.ofNat (storedBytes s)

theorem counts_empty (basePath : Str) : Counts (fun _ => none) { basePath } where
  sizes id := Finmap.lookup_empty id
  stored := rfl

/-- Two stores with the statistics of one map are the same. -/
theorem Counts.unique {m : ChunkMap} {s s' : ChunkStore} (h : Counts m s) (h' : Counts m s')
    (hbase : s.basePath = s'.basePath) : s = s' := by
  have hsizes : s.chunkSizes = s'.chunkSizes :=
    Finmap.ext_lookup fun id => (h.sizes id).trans (h'.sizes id).symm
  have htotal : s.totalStored = s'.totalStored := by
    rw [h.stored, h'.stored, storedBytes, storedBytes, hsizes]
  cases s
  cases s'
  simp only at hbase hsizes htotal
  rw [hbase, hsizes, htotal]

/-! ## The operations -/

section Operations

variable {m : ChunkMap} {s : ChunkStore} (h : Counts m s)

include h

/-- The total without a chunk. -/
theorem Counts.stored_erase {chunkId : Str} {old : UInt64}
    (hold : s.chunkSizes.lookup chunkId = some old) :
    s.totalStored - old = UInt64.ofNat (total UInt64.toNat (s.chunkSizes.erase chunkId)) := by
  rw [h.stored, storedBytes, ← Lib.total_erase UInt64.toNat hold, UInt64.ofNat_add,
    UInt64.ofNat_toNat, UInt64.add_comm, UInt64.add_sub_cancel]

theorem Counts.recordWrite (chunkId : Str) (entry : ChunkHeaderData × Bytes) :
    Counts (fun id => if id = chunkId then some entry else m id)
      (ChunkStore.recordWrite s chunkId entry.1.size) where
  sizes id := by
    unfold ChunkStore.recordWrite
    by_cases hid : id = chunkId
    · rw [hid, Finmap.lookup_insert, if_pos rfl, Option.map_some]
    · rw [Finmap.lookup_insert_of_ne _ hid, if_neg hid]
      exact h.sizes id
  stored := by
    unfold ChunkStore.recordWrite storedBytes
    rw [total_insert, UInt64.ofNat_add, UInt64.ofNat_toNat, UInt64.add_comm]
    cases hold : s.chunkSizes.lookup chunkId with
    | none =>
      rw [erase_of_notMem (Finmap.lookup_eq_none.mp hold)]
      exact congrArg (· + entry.1.size) h.stored
    | some old => exact congrArg (· + entry.1.size) (h.stored_erase hold)

theorem Counts.recordDelete (chunkId : Str) :
    Counts (fun id => if id = chunkId then none else m id)
      (ChunkStore.recordDelete s chunkId) := by
  unfold ChunkStore.recordDelete
  cases hold : s.chunkSizes.lookup chunkId with
  | none =>
    refine ⟨fun id => ?_, h.stored⟩
    by_cases hid : id = chunkId
    · rw [if_pos hid, hid]
      exact hold
    · rw [if_neg hid]
      exact h.sizes id
  | some old =>
    refine ⟨fun id => ?_, h.stored_erase hold⟩
    by_cases hid : id = chunkId
    · rw [if_pos hid, hid, Finmap.lookup_erase]
      rfl
    · rw [if_neg hid, Finmap.lookup_erase_ne hid]
      exact h.sizes id

end Operations

/-- A write whose file operations do not fail. -/
theorem writeChunk_ok (now : TimestampMs) (s : ChunkStore) (files : FileSystem)
    (header : ChunkHeaderData) (payload : Bytes) :
    writeChunk .ok now s files header payload =
      if accepts header payload = true then
        (some true, ChunkStore.recordWrite s header.chunkId header.size,
          ((files.insert (tmpPath s.basePath header.chunkId)
              (serialize (filledHeader now header payload) payload)).erase
            (tmpPath s.basePath header.chunkId)).insert (chunkFilePath s.basePath header.chunkId)
              (serialize (filledHeader now header payload) payload))
      else (some false, s, files) := by
  cases haccepts : accepts header payload <;> simp [writeChunk, haccepts, WriteIO.ok, contentsAfter]

/-- A deletion whose file operations do not fail. -/
theorem deleteChunk_removed (s : ChunkStore) (files : FileSystem) (chunkId : Str) :
    deleteChunk .removed s files chunkId =
      if chunkFilePath s.basePath chunkId ∈ files then
        (some true, ChunkStore.recordDelete s chunkId,
          files.erase (chunkFilePath s.basePath chunkId))
      else (some false, s, files) := by
  by_cases hfile : chunkFilePath s.basePath chunkId ∈ files <;> simp [deleteChunk, hfile]

/-! ## The directory -/

/-- The name of a chunk's file in the base directory. -/
def fileName (chunkId : Str) : Str :=
  str "chunk_" ++ chunkId ++ str ".data"

theorem chunkFilePath_eq (base chunkId : Str) :
    chunkFilePath base chunkId = joinPath base (fileName chunkId) := rfl

theorem fileName_plain {chunkId : Str} : PlainName (fileName chunkId) ↔ PlainName chunkId := by
  have hname : PlainName (str "chunk_") ∧ PlainName (str ".data") := by decide
  simp only [PlainName, fileName, List.mem_append, not_or] at hname ⊢
  exact ⟨fun h => ⟨h.1.1.2, h.2.1.2⟩,
    fun h => ⟨⟨⟨hname.1.1, h.1⟩, hname.2.1⟩, ⟨⟨hname.1.2, h.2⟩, hname.2.2⟩⟩⟩

/-- The regular files of the base directory are the files of the entries. -/
def Lists (base : Str) (m : ChunkMap) (files : FileSystem) : Prop :=
  ∀ name, name ≠ [] → PlainName name → joinPath base name ∈ files →
    ∃ id entry, name = fileName id ∧ m id = some entry

/-- The entries are stored under plain ids, which are those of their headers. -/
def Keyed (m : ChunkMap) : Prop :=
  ∀ id entry, m id = some entry → PlainName id ∧ entry.1.chunkId = id

theorem lists_write {base : Str} {m : ChunkMap} {files : FileSystem} (h : Lists base m files)
    (chunkId : Str) (entry : ChunkHeaderData × Bytes) (data : Bytes) :
    Lists base (fun id => if id = chunkId then some entry else m id)
      (((files.insert (tmpPath base chunkId) data).erase (tmpPath base chunkId)).insert
        (chunkFilePath base chunkId) data) := by
  intro name hname hplain hfile
  rw [Finmap.mem_insert, Finmap.mem_erase, Finmap.mem_insert] at hfile
  rcases hfile with hpath | ⟨hother, htmp | hfile⟩
  · exact ⟨chunkId, entry, joinPath_inj hpath, if_pos rfl⟩
  · exact absurd htmp hother
  · obtain ⟨id, old, hid, hold⟩ := h name hname hplain hfile
    by_cases hsame : id = chunkId
    · exact ⟨id, entry, hid, if_pos hsame⟩
    · exact ⟨id, old, hid, (if_neg hsame).trans hold⟩

theorem lists_delete {base : Str} {m : ChunkMap} {files : FileSystem} (h : Lists base m files)
    (chunkId : Str) :
    Lists base (fun id => if id = chunkId then none else m id)
      (files.erase (chunkFilePath base chunkId)) := by
  intro name hname hplain hfile
  rw [Finmap.mem_erase] at hfile
  obtain ⟨id, old, hid, hold⟩ := h name hname hplain hfile.2
  have hother : id ≠ chunkId := by
    intro hsame
    rw [hid, hsame] at hfile
    exact hfile.1 rfl
  exact ⟨id, old, hid, (if_neg hother).trans hold⟩

/-! ## The constructor -/

section Construct

variable {base : Str} {m : ChunkMap} {files : FileSystem}

/-- The file of an entry is found, and read as the entry. -/
theorem scanFile_entry (hholds : Holds files base m) (hkeyed : Keyed m) {s : ChunkStore}
    (hbase : s.basePath = base) {id : Str} {entry : ChunkHeaderData × Bytes}
    (hentry : m id = some entry) :
    scanFile files s (fileName id) =
      { s with
        chunkSizes := s.chunkSizes.insert id entry.1.size
        totalStored := s.totalStored + entry.1.size } := by
  have hplain := (hkeyed id entry hentry).1
  obtain ⟨hfile, hstorable⟩ := hholds id hplain
  obtain ⟨hfits, hsize, hchecksum⟩ := hstorable entry hentry
  have hread := deserialize_serialize hfits hsize hchecksum
  have hlength : 10 ≤ (fileName id).length := by simp [fileName, str]
  have hsuffix : (fileName id).drop ((fileName id).length - 5) = str ".data" := by
    have hdata : (str ".data").length = 5 := rfl
    rw [fileName, List.length_append, hdata, Nat.add_sub_cancel, List.drop_left]
  rw [scanFile, if_neg (by rw [hsuffix]; simpa using hlength), hbase, ← chunkFilePath_eq, hfile,
    hentry]
  simp only [Option.map_some, Option.getD_some, hread, (hkeyed id entry hentry).2]

theorem fileName_inj {id id' : Str} (h : fileName id = fileName id') : id = id' :=
  chunkFilePath_inj (congrArg (joinPath []) h)

/-- The statistics after the loop over some files, which come on top of others. -/
theorem scan_counts (hholds : Holds files base m) (hkeyed : Keyed m) {names : List Str}
    (done : List Str) (hnodup : (names ++ done).Nodup)
    (hentries : ∀ name ∈ names, ∃ id entry, name = fileName id ∧ m id = some entry)
    {s : ChunkStore} (hbase : s.basePath = base)
    (hs : Counts (fun id => if fileName id ∈ done then m id else none) s) :
    Counts (fun id => if fileName id ∈ names ++ done then m id else none)
      (names.foldl (scanFile files) s) := by
  induction names generalizing s done with
  | nil => exact hs
  | cons name names ih =>
    rw [List.forall_mem_cons] at hentries
    obtain ⟨⟨id, entry, hname, hentry⟩, hrest⟩ := hentries
    have hnew : name ∉ done := fun hdone =>
      (List.nodup_cons.mp hnodup).1 (List.mem_append_right names hdone)
    have hscan : scanFile files s name = ChunkStore.recordWrite s id entry.1.size := by
      have hnone : s.chunkSizes.lookup id = none := by
        rw [hs.sizes id, if_neg (hname ▸ hnew)]
        rfl
      rw [hname, scanFile_entry hholds hkeyed hbase hentry, ChunkStore.recordWrite, hnone]
    have hcounts := hs.recordWrite id entry
    have hmap : (fun id' => if id' = id then some entry
          else if fileName id' ∈ done then m id' else none) =
        fun id' => if fileName id' ∈ name :: done then m id' else none := by
      funext id'
      by_cases hid : id' = id
      · rw [if_pos hid, hid, hname, if_pos List.mem_cons_self, hentry]
      · have hother : fileName id' ≠ name := fun hsame =>
          hid (fileName_inj (hsame.trans hname))
        simp only [if_neg hid, List.mem_cons, hother, false_or]
    rw [hmap, ← hscan] at hcounts
    have hperm : (names ++ name :: done).Nodup :=
      (List.perm_middle.nodup_iff).mpr hnodup
    have hall := ih (name :: done) hperm hrest
      (by rw [hscan, recordWrite_basePath]; exact hbase) hcounts
    rw [List.foldl_cons]
    refine ⟨fun id' => ?_, hall.stored⟩
    rw [hall.sizes id']
    simp only [List.mem_append, List.mem_cons, List.cons_append, or_left_comm]

/-- A constructed store has the statistics of the map, whatever the order of the files. -/
theorem construct_counts (hholds : Holds files base m) (hkeyed : Keyed m)
    (hlists : Lists base m files) {names : List Str} (hnames : ListsDirectory files base names) :
    Counts m (construct base files names) := by
  have hentries : ∀ name ∈ names, ∃ id entry, name = fileName id ∧ m id = some entry := by
    intro name hname
    obtain ⟨hne, hplain, hfile⟩ := (hnames.2 name).mp hname
    exact hlists name hne hplain hfile
  have hscan := @scan_counts base m files hholds hkeyed names [] (by simpa using hnames.1) hentries
    { basePath := base } rfl (by simpa using counts_empty base)
  have hmap : (fun id => if fileName id ∈ names ++ [] then m id else none) = m := by
    funext id
    rw [List.append_nil]
    cases hentry : m id with
    | none => simp
    | some entry =>
      have hplain := (hkeyed id entry hentry).1
      have hfile : joinPath base (fileName id) ∈ files := by
        rw [← chunkFilePath_eq, ← Finmap.lookup_isSome, (hholds id hplain).1, hentry]
        rfl
      have hlisted := (hnames.2 (fileName id)).mpr
        ⟨by simp [fileName, str], fileName_plain.mpr hplain, hfile⟩
      rw [if_pos hlisted]
  rwa [hmap] at hscan

end Construct

/-! ## Runs -/

/-- The entries of the history are stored under plain ids. -/
theorem keyed_lastWrite {base : Str} {history : List StoreEvent} {st : ChunkStore × FileSystem}
    (hrun : StoreRun base history st) : Keyed (lastWrite history) := by
  induction hrun with
  | start => exact fun id entry hentry => nomatch hentry
  | @step _ _ _ event hrun hstep ih =>
    intro id entry hentry
    cases hstep with
    | @write _ _ _ _ header payload now result hplain hchunk hobject hwrite =>
      cases result with
      | false => exact ih id entry hentry
      | true =>
        rw [lastWrite] at hentry
        split at hentry
        · next hid =>
          cases hentry
          rw [hid]
          exact ⟨hplain, rfl⟩
        · exact ih id entry hentry
    | delete hplain hdelete =>
      rw [lastWrite] at hentry
      split at hentry
      · cases hentry
      · exact ih id entry hentry
    | restart hnames => exact ih id entry hentry

/-- After any run the statistics and the directory are those of the history. -/
theorem counts_of_run {base : Str} {history : List StoreEvent} {st : ChunkStore × FileSystem}
    (hrun : StoreRun base history st) :
    Counts (lastWrite history) st.1 ∧ Lists base (lastWrite history) st.2 := by
  induction hrun with
  | @start files hempty =>
    refine ⟨counts_empty base, fun name hname hplain hfile => ?_⟩
    have hlisted := (hempty.2 name).mpr ⟨hname, hplain, hfile⟩
    cases hlisted
  | @step history st _ event hrun hstep ih =>
    obtain ⟨hcounts, hlists⟩ := ih
    obtain ⟨hbase, hholds⟩ := holds_of_run hrun
    cases hstep with
    | @write s s' files files' header payload now result hplain hchunk hobject hwrite =>
      obtain rfl : s.basePath = base := hbase
      rw [writeChunk_ok] at hwrite
      split at hwrite
      · cases hwrite
        exact ⟨hcounts.recordWrite header.chunkId (filledHeader now header payload, payload),
          lists_write hlists header.chunkId _ _⟩
      · cases hwrite
        exact ⟨hcounts, hlists⟩
    | @delete s s' files files' chunkId result hplain hdelete =>
      obtain rfl : s.basePath = base := hbase
      rw [deleteChunk_removed] at hdelete
      split at hdelete
      · cases hdelete
        exact ⟨hcounts.recordDelete chunkId, lists_delete hlists chunkId⟩
      · next habsent =>
        cases hdelete
        -- there was nothing to delete
        have hnone : lastWrite history chunkId = none := by
          have hfile := (hholds chunkId hplain).1
          rw [Finmap.lookup_eq_none.mpr habsent] at hfile
          exact Option.map_eq_none_iff.mp hfile.symm
        have hmap : lastWrite (.deleted chunkId false :: history) = lastWrite history := by
          funext id
          rw [lastWrite]
          split
          · next hid => rw [hid, hnone]
          · rfl
        rw [hmap]
        exact ⟨hcounts, hlists⟩
    | restart hnames =>
      exact ⟨construct_counts hholds (keyed_lastWrite hrun) hlists hnames, hlists⟩

/-- After any writes, overwrites, deletions, rejected writes and restarts, the ids of
`chunk_sizes_` are those whose chunk file exists, the sizes are those of the payloads, and
`total_stored_` is their sum in 64 bits: no subtraction underflows as long as the sum fits.
A new store on the directory has the same statistics. -/
theorem statistics_exact {base : Str} {history : List StoreEvent} {st : ChunkStore × FileSystem}
    (hrun : StoreRun base history st) :
    (∀ id, id ∈ st.1.chunkSizes ↔ PlainName id ∧ chunkFilePath base id ∈ st.2) ∧
      (∀ id size, st.1.chunkSizes.lookup id = some size → ∃ header payload,
        readChunk st.1 st.2 id = some (header, payload) ∧ size.toNat = payload.length) ∧
      st.1.totalStored = UInt64.ofNat (storedBytes st.1) ∧
      (storedBytes st.1 < 2 ^ 64 → st.1.totalStored.toNat = storedBytes st.1 ∧
        ∀ id size, st.1.chunkSizes.lookup id = some size → size ≤ st.1.totalStored) ∧
      ∀ names, ListsDirectory st.2 base names → construct base st.2 names = st.1 := by
  obtain ⟨hcounts, hlists⟩ := counts_of_run hrun
  obtain ⟨hbase, hholds⟩ := holds_of_run hrun
  have hkeyed := keyed_lastWrite hrun
  refine ⟨fun id => ?_, fun id size hsize => ?_, hcounts.stored, fun hfits => ?_,
    fun names hnames => ?_⟩
  · rw [← Finmap.lookup_isSome, hcounts.sizes id, Option.isSome_map]
    constructor
    · intro hsome
      obtain ⟨entry, hentry⟩ := Option.isSome_iff_exists.mp hsome
      have hplain := (hkeyed id entry hentry).1
      rw [← Finmap.lookup_isSome, (hholds id hplain).1, hentry]
      exact ⟨hplain, rfl⟩
    · rintro ⟨hplain, hfile⟩
      rwa [← Finmap.lookup_isSome, (hholds id hplain).1, Option.isSome_map] at hfile
  · rw [hcounts.sizes id] at hsize
    obtain ⟨⟨header, payload⟩, hentry, rfl⟩ := Option.map_eq_some_iff.mp hsize
    have hplain := (hkeyed id _ hentry).1
    refine ⟨header, payload, ?_, ((hholds id hplain).2 _ hentry).2.1⟩
    rw [readChunk_of_holds (hbase ▸ hholds) hplain, hentry]
  · have hstored : st.1.totalStored.toNat = storedBytes st.1 := by
      rw [hcounts.stored, UInt64.toNat_ofNat_of_lt' hfits]
    refine ⟨hstored, fun id size hsize => ?_⟩
    have hpart := Lib.total_erase UInt64.toNat hsize
    rw [UInt64.le_iff_toNat_le, hstored, storedBytes]
    omega
  · exact (construct_counts hholds hkeyed hlists hnames).unique hcounts
      ((construct_basePath base st.2 names).trans hbase.symm)

/-- A chunk is written twice, with a larger payload first. -/
theorem statistics_exact_overwrite :
    ∃ st, StoreRun (str "/data")
        [.wrote { chunkId := str "c1", size := 1 } [9] 7 true,
          .wrote { chunkId := str "c1", size := 2 } [1, 2] 7 true] st ∧
      st.1.totalStored = 1 ∧
      ∀ names, ListsDirectory st.2 (str "/data") names →
        construct (str "/data") st.2 names = st.1 := by
  have hempty : ListsDirectory ∅ (str "/data") [] := by
    refine ⟨List.nodup_nil, fun name => ?_⟩
    simp [Finmap.notMem_empty]
  have hfirst := @StoreStep.write (str "/data") (construct (str "/data") ∅ []) _ ∅ _
    { chunkId := str "c1", size := 2 } [1, 2] 7 true (by decide) (by decide) (by decide)
    (writeChunk_ok _ _ _ _ _)
  have hrun := ((StoreRun.start hempty).step hfirst).step (@StoreStep.write (str "/data") _ _ _ _
    { chunkId := str "c1", size := 1 } [9] 7 true (by decide) (by decide) (by decide)
    (writeChunk_ok _ _ _ _ _))
  exact ⟨_, hrun, rfl, (statistics_exact hrun).2.2.2.2⟩

/-! ## Long ids -/

/-- The length prefix of an object id of `2 ^ 32` bytes is zero, and a decoder reads the
bytes of the id as the fields behind it: no chunk is accepted. -/
theorem deserialize_long_objectId {header : ChunkHeaderData} {payload : Bytes} {length : ℕ}
    (hobject : header.objectId = List.replicate length 0) (hlength : 20 < length)
    (hzero : UInt32.ofNat length = 0) (hchunk : header.chunkId.length < 2 ^ 32) :
    deserialize (serialize header payload) = none := by
  obtain ⟨n, rfl⟩ : ∃ n, length = n + 21 := ⟨length - 21, by omega⟩
  let misread : ChunkHeaderData :=
    { chunkId := header.chunkId, version := header.version, checksum := [], createdAtMs := 0 }
  obtain ⟨rest, hrest, hserialize⟩ : ∃ rest, rest ≠ [] ∧
      serialize header payload = serialize misread rest := by
    refine ⟨List.replicate (n + 1) 0 ++ (appendU64 [] header.size ++
      (appendString [] header.checksum ++ (appendU64 [] header.createdAtMs ++ payload))), ?_, ?_⟩
    · simp
    · have hzeros : List.replicate (n + 21) (0 : UInt8) =
          (appendU64 [] 0 ++ (appendU32 [] 0 ++ appendU64 [] 0)) ++ List.replicate (n + 1) 0 := by
        have htwenty : appendU64 [] 0 ++ (appendU32 [] 0 ++ appendU64 [] 0) =
            List.replicate 20 0 := by decide
        rw [htwenty, List.replicate_append_replicate, Nat.add_comm 20]
      rw [serialize, serialize, headerOnlyBytes_eq, headerOnlyBytes_eq, fieldBytes, fieldBytes,
        hobject]
      simp only [appendString, List.length_replicate, hzero]
      rw [hzeros]
      simp only [List.append_assoc, List.append_nil]
      rfl
  rw [hserialize]
  by_contra hsome
  obtain ⟨⟨header', payload'⟩, hread⟩ := Option.ne_none_iff_exists'.mp hsome
  obtain ⟨hvalid, hencoded⟩ := serialize_of_deserialize hread
  have hfits : Fits misread := ⟨hchunk, Nat.two_pow_pos 32, Nat.two_pow_pos 32⟩
  obtain ⟨rfl, rfl⟩ := header_unique hvalid.fits hfits hencoded
  exact hrest (List.eq_nil_of_length_eq_zero hvalid.size.symm)

/-- A written chunk whose file is not accepted is in the statistics of the store, and not in
those of the next store on the directory. -/
theorem lost_at_restart {base : Str} {header : ChunkHeaderData} {payload : Bytes}
    (now : TimestampMs)
    (haccepts : accepts header payload = true) (hplain : PlainName header.chunkId)
    (hlost : deserialize (serialize (filledHeader now header payload) payload) = none) :
    ∃ s' files', writeChunk .ok now { basePath := base } ∅ header payload =
        (some true, s', files') ∧
      s'.chunkSizes.lookup header.chunkId = some header.size ∧
      ListsDirectory files' base [fileName header.chunkId] ∧
      construct base files' [fileName header.chunkId] = { basePath := base } := by
  refine ⟨_, _, (writeChunk_ok now _ ∅ header payload).trans (if_pos haccepts), ?_, ?_, ?_⟩
  · exact Finmap.lookup_insert _
  · refine ⟨List.nodup_singleton _, fun name => ?_⟩
    rw [List.mem_singleton, Finmap.mem_insert, Finmap.mem_erase, Finmap.mem_insert,
      chunkFilePath_eq]
    constructor
    · intro hname
      rw [hname]
      exact ⟨by simp [fileName, str], fileName_plain.mpr hplain, .inl rfl⟩
    · intro hfile
      obtain ⟨-, -, hpath | ⟨hother, htmp | habsent⟩⟩ := hfile
      · exact joinPath_inj hpath
      · exact absurd htmp hother
      · exact absurd habsent Finmap.notMem_empty
  · rw [construct, List.foldl_cons, List.foldl_nil, scanFile]
    split
    · rfl
    · rw [← chunkFilePath_eq, Finmap.lookup_insert, Option.getD_some, hlost]

/-- A chunk whose object id has `2 ^ 32` bytes is lost by the next store. -/
theorem statistics_lost_at_restart :
    ∃ s files, writeChunk .ok 7 (construct (str "/data") ∅ []) ∅
        { chunkId := str "c1", objectId := List.replicate (2 ^ 32) 0, size := 1 } [9] =
        (some true, s, files) ∧
      s.chunkSizes.lookup (str "c1") = some 1 ∧
      ListsDirectory files (str "/data") [fileName (str "c1")] ∧
      construct (str "/data") files [fileName (str "c1")] = { basePath := str "/data" } := by
  generalize hid : List.replicate (2 ^ 32) (0 : UInt8) = objectId
  have hplain : PlainName (str "c1") := by decide
  have hchunk : (str "c1").length < 2 ^ 32 := by decide
  have hlength : 20 < 2 ^ 32 := by decide
  exact lost_at_restart 7 rfl hplain (deserialize_long_objectId hid.symm hlength rfl hchunk)

end StorageEngine.ChunkStore
