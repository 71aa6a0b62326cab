import StorageEngine.Chunk.Canonical
import StorageEngine.Cluster.Calls

/-!
# The chunk files of the storage nodes

Which calls change which chunk files.

* `BeginsChunk`: what is left of a chunk file when a machine loses the end of it.
* `FileChange` is what one served call does, and `delivers_file` says when a file is there
  after a call.
* `file_of_writes` and `file_of_deletions` are the same for a run, in terms of the calls
  that its trace records.
* `file_of_changesOnly`: a program leaves the files of the chunks that it has no business with.
-/

namespace StorageEngine

open ChunkFormat ChunkStore Lib.Remote

/-- The contents of a chunk file. -/
def StorageNode.file (n : StorageNode) (chunkId : Str) : Option Bytes :=
  n.2.lookup (chunkFilePath n.1.basePath chunkId)

/-- The node answers a read of the chunk with these bytes. -/
def StorageNode.Reads (n : StorageNode) (chunkId : Str) (data : Bytes) : Prop :=
  ∃ header, n.1.readChunk n.2 chunkId = some (header, data)

theorem StorageNode.readChunk_eq (n : StorageNode) (chunkId : Str) :
    n.1.readChunk n.2 chunkId = (n.file chunkId).bind deserialize := by
  rw [readChunk, file]
  cases n.2.lookup (chunkFilePath n.1.basePath chunkId) <;> rfl

/-- What a node reads depends on the file only. -/
theorem StorageNode.reads_congr {n n' : StorageNode} {chunkId : Str}
    (h : n'.file chunkId = n.file chunkId) {data : Bytes} :
    n'.Reads chunkId data ↔ n.Reads chunkId data := by
  rw [Reads, Reads, readChunk_eq, readChunk_eq, h]

/-- So does what it stores. -/
theorem StorageNode.Stores.congr {n n' : StorageNode} {chunkId : Str} {data : Bytes}
    (h : n.Stores chunkId data) (hfile : n'.file chunkId = n.file chunkId) :
    n'.Stores chunkId data := by
  obtain ⟨header, hread, hchecksum⟩ := h
  refine ⟨header, ?_, hchecksum⟩
  rwa [readChunk_eq, hfile, ← readChunk_eq]

theorem StorageNode.Stores.reads {n : StorageNode} {chunkId : Str} {data : Bytes}
    (h : n.Stores chunkId data) : n.Reads chunkId data := by
  obtain ⟨header, hread, -⟩ := h
  exact ⟨header, hread⟩

theorem StorageNode.Reads.file {n : StorageNode} {chunkId : Str} {data : Bytes}
    (h : n.Reads chunkId data) : n.file chunkId ≠ none := by
  obtain ⟨header, hread⟩ := h
  intro hnone
  rw [readChunk_eq, hnone] at hread
  cases hread

theorem StorageNode.Reads.unique {n : StorageNode} {chunkId : Str} {data data' : Bytes}
    (h : n.Reads chunkId data) (h' : n.Reads chunkId data') : data = data' := by
  obtain ⟨header, hread⟩ := h
  obtain ⟨header', hread'⟩ := h'
  rw [hread] at hread'
  cases hread'
  rfl

/-- A node reads chunks whose size is in their header. -/
theorem StorageNode.Reads.length_lt {n : StorageNode} {chunkId : Str} {data : Bytes}
    (h : n.Reads chunkId data) : data.length < 2 ^ 64 := by
  obtain ⟨header, hread⟩ := h
  rw [readChunk_eq, Option.bind_eq_some_iff] at hread
  obtain ⟨contents, -, hcontents⟩ := hread
  rw [← (serialize_of_deserialize hcontents).1.size]
  exact header.size.toNat_lt

/-- There is a node that stores the chunk. -/
theorem StorageNode.exists_stores {chunkId : Str} {data : Bytes}
    (hchunk : chunkId.length < 2 ^ 32) (hlength : data.length < 2 ^ 64) :
    ∃ n : StorageNode, n.Stores chunkId data := by
  have haccepts : accepts (ChunkHeader.toData { chunkId := chunkId
                                                size := UInt64.ofNat data.length }) data = true :=
    (accepts_iff _ _).mpr ⟨UInt64.toNat_ofNat_of_lt' hlength, .inl rfl⟩
  obtain ⟨n, hserves⟩ := @StorageService.serves_accepted
    { header := { chunkId := chunkId, size := UInt64.ofNat data.length }, data := data }
    ({ basePath := [] }, ∅) haccepts
  exact ⟨n, hserves.stores_write rfl hchunk (show 0 < 2 ^ 32 by decide)⟩

/-! ## Damaged files -/

/-- The files are what is left of others: some are gone, and some have lost their ends. -/
def LeftOf (files whole : FileSystem) : Prop :=
  ∀ path contents, files.lookup path = some contents →
    ∃ before, whole.lookup path = some before ∧ contents <+: before

/-- The contents are an encoding of a chunk with this payload, or the beginning of one. -/
def BeginsChunk (data contents : Bytes) : Prop :=
  ∃ header, deserialize (serialize header data) = some (header, data) ∧
    contents <+: serialize header data

/-- What is not a whole encoding is not read at all. -/
theorem BeginsChunk.payload {data contents payload : Bytes} {header : ChunkHeaderData}
    (h : BeginsChunk data contents) (hread : deserialize contents = some (header, payload)) :
    payload = data := by
  obtain ⟨whole, hwhole, hinitial⟩ := h
  have hcontents := eq_of_initial hinitial (by rw [hread]; rfl) (by rw [hwhole]; rfl)
  rw [hcontents, hwhole] at hread
  cases hread
  rfl

theorem BeginsChunk.shorten {data contents contents' : Bytes} (h : BeginsChunk data contents)
    (hinitial : contents' <+: contents) : BeginsChunk data contents' := by
  obtain ⟨header, hwhole, hstart⟩ := h
  exact ⟨header, hwhole, hinitial.trans hstart⟩

/-- A file that can be read is whole. -/
theorem StorageNode.Reads.begins {n : StorageNode} {chunkId : Str} {data contents : Bytes}
    (h : n.Reads chunkId data) (hfile : n.file chunkId = some contents) :
    BeginsChunk data contents := by
  obtain ⟨header, hread⟩ := h
  rw [readChunk_eq, hfile, Option.bind_some] at hread
  obtain ⟨-, rfl⟩ := serialize_of_deserialize hread
  exact ⟨header, hread, List.prefix_refl _⟩

/-! ## One call -/

/-- The reply acknowledges a write. -/
def StorageRpc.acknowledged : (q : StorageRpc) → Option q.Reply → Bool
  | .writeChunk _, some resp => resp.success
  | .replicateChunk _, some resp => resp.success
  | _, _ => false

@[simp] theorem StorageRpc.acknowledged_none (q : StorageRpc) : q.acknowledged none = false := by
  cases q <;> rfl

/-- A write deletes nothing. -/
theorem StorageRpc.deleted_of_written {q : StorageRpc} {written : ChunkHeader × Bytes}
    (h : q.written = some written) : q.deleted = none := by
  cases q with
  | writeChunk req => rfl
  | replicateChunk req => rfl
  | readChunk req => cases h
  | deleteChunk req => cases h

/-- What a served call does to the chunk files of its node. -/
inductive StorageService.FileChange (q : StorageRpc) (r : Option q.Reply)
    (n n' : StorageNode) : Prop where
  | same (hrefused : q.acknowledged r = false) (hkept : q.deleted ≠ none → r = none)
      (hfiles : ∀ id, n'.file id = n.file id)
  | wrote {header : ChunkHeader} {data : Bytes} (now : TimestampMs)
      (hwritten : q.written = some (header, data)) (hack : q.acknowledged r = true)
      (haccepts : accepts header.toData data = true)
      (hfiles : ∀ id, n'.file id =
        if id = header.chunkId then some (serialize (filledHeader now header.toData data) data)
        else n.file id)
  | deleted {chunkId : Str} (hdeleted : q.deleted = some chunkId) (hr : r ≠ none)
      (hfiles : ∀ id, n'.file id = if id = chunkId then none else n.file id)

namespace StorageService

private theorem fileChange_of_write {q : StorageRpc} {r : Option q.Reply} {n n' : StorageNode}
    {header : ChunkHeader} {data : Bytes} {io : WriteIO} {now : TimestampMs}
    {result : Option Bool} (hwritten : q.written = some (header, data))
    (hdeleted : q.deleted = none) (hack : q.acknowledged r = decide (result = some true))
    (hflush : io.flushed = none)
    (hwrite : n.1.writeChunk io now n.2 header.toData data = (result, n')) :
    FileChange q r n n' := by
  obtain ⟨hbase, hfiles⟩ := writeChunk_files hflush hwrite
  rcases hfiles with ⟨hok, haccepts, hfiles⟩ | ⟨hresult, hfiles⟩
  · refine .wrote now hwritten (hack.trans (decide_eq_true hok)) haccepts fun id => ?_
    rw [StorageNode.file, hbase]
    exact hfiles id
  · refine .same (hack.trans (decide_eq_false hresult)) (fun h => absurd hdeleted h) fun id => ?_
    rw [StorageNode.file, hbase]
    exact hfiles id

theorem Serves.fileChange {q : StorageRpc} {n n' : StorageNode} {r : Option q.Reply}
    (h : Serves q n r n') : FileChange q r n n' := by
  cases h with
  | @writeChunk _ _ _ _ _ result hflush hwrite =>
    refine fileChange_of_write rfl rfl ?_ hflush hwrite
    cases result with
    | none => rfl
    | some ok => cases ok <;> rfl
  | @replicateChunk _ _ _ _ _ result hflush hwrite =>
    refine fileChange_of_write rfl rfl ?_ hflush hwrite
    cases result with
    | none => rfl
    | some ok => cases ok <;> rfl
  | readChunk => exact .same rfl (fun h => absurd rfl h) fun id => rfl
  | @deleteChunk _ _ req _ result hdelete =>
    obtain ⟨hbase, hfiles⟩ := deleteChunk_cases hdelete
    rcases hfiles with ⟨hresult, hfiles⟩ | ⟨hresult, hfiles⟩
    · refine .deleted rfl (fun hnone => hresult (Option.map_eq_none_iff.mp hnone)) fun id => ?_
      rw [StorageNode.file, hbase]
      exact hfiles id
    · refine .same rfl (fun _ => by rw [hresult]; rfl) fun id => ?_
      rw [StorageNode.file, hbase, hfiles]
      rfl

/-- A file is there after a call that writes it, or if it was there and the call does not
delete it. -/
theorem FileChange.file_iff {q : StorageRpc} {r : Option q.Reply} {n n' : StorageNode}
    (h : FileChange q r n n') (chunkId : Str) :
    n'.file chunkId ≠ none ↔
      (q.acknowledged r = true ∧
        ∃ header data, q.written = some (header, data) ∧ header.chunkId = chunkId) ∨
      n.file chunkId ≠ none ∧ ¬(q.deleted = some chunkId ∧ r ≠ none) := by
  cases h with
  | same hrefused hkept hfiles =>
    rw [hfiles chunkId]
    simp only [hrefused, Bool.false_eq_true, false_and, false_or]
    refine ⟨fun hfile => ⟨hfile, fun ⟨hdeleted, hr⟩ => hr (hkept ?_)⟩, And.left⟩
    simp [hdeleted]
  | @wrote header data now hwritten hack _ hfiles =>
    have hdeleted := StorageRpc.deleted_of_written hwritten
    rw [hfiles chunkId]
    by_cases hid : chunkId = header.chunkId
    · simp [hid, hack, hwritten]
    · simp [hid, hack, hwritten, hdeleted, Ne.symm hid]
  | @deleted id hdeleted hr hfiles =>
    have hwritten : q.written = none := by
      by_contra hsome
      obtain ⟨x, hx⟩ := Option.ne_none_iff_exists'.mp hsome
      rw [StorageRpc.deleted_of_written hx] at hdeleted
      cases hdeleted
    rw [hfiles chunkId]
    by_cases hid : chunkId = id
    · simp [hid, hdeleted, hwritten, hr]
    · simp [hid, hdeleted, hwritten, Ne.symm hid]

end StorageService

/-- The call writes the chunk, under a header that fits it. -/
def StorageRpc.WritesChunk (q : StorageRpc) (chunkId objectId : Str) (data : Bytes) : Prop :=
  ∃ header, q.written = some (header, data) ∧ header.chunkId = chunkId ∧
    header.objectId = objectId ∧ header.size = UInt64.ofNat data.length ∧
    header.checksum = Checksum.sha256 data

/-- A node can acknowledge any write of a chunk that is not too long. -/
theorem StorageService.serves_write {q : StorageRpc} {chunkId objectId : Str} {data : Bytes}
    (n : StorageNode) (hwrites : q.WritesChunk chunkId objectId data)
    (hlength : data.length < 2 ^ 64) :
    ∃ r n', Serves q n r n' ∧ q.acknowledged r = true := by
  obtain ⟨header, hwritten, -, -, hsize, hchecksum⟩ := hwrites
  have haccepts : accepts header.toData data = true := by
    refine (accepts_iff _ _).mpr ⟨?_, .inr hchecksum.symm⟩
    rw [ChunkHeader.toData, hsize]
    exact UInt64.toNat_ofNat_of_lt' hlength
  have hwrite : ∃ n', n.1.writeChunk .ok 0 n.2 header.toData data = (some true, n') := by
    simp [writeChunk, haccepts, WriteIO.ok]
  obtain ⟨n', hwrite⟩ := hwrite
  cases q with
  | writeChunk req =>
    cases hwritten
    exact ⟨_, n', .writeChunk rfl hwrite, rfl⟩
  | replicateChunk req =>
    cases hwritten
    exact ⟨_, n', .replicateChunk rfl hwrite, rfl⟩
  | readChunk req => cases hwritten
  | deleteChunk req => cases hwritten

/-- A node can refuse any write, when it cannot open the temporary file. -/
theorem StorageService.serves_refusal {q : StorageRpc} {chunkId objectId : Str} {data : Bytes}
    (n : StorageNode) (hwrites : q.WritesChunk chunkId objectId data) :
    ∃ r, Serves q n r n ∧ q.acknowledged r = false := by
  obtain ⟨header, hwritten, -⟩ := hwrites
  have hwrite : n.1.writeChunk { opened := false } 0 n.2 header.toData data = (some false, n) := by
    rw [writeChunk]
    split <;> simp
  have hflush : ({ opened := false } : WriteIO).flushed = none := rfl
  cases q with
  | writeChunk req =>
    cases hwritten
    exact ⟨_, .writeChunk hflush hwrite, rfl⟩
  | replicateChunk req =>
    cases hwritten
    exact ⟨_, .replicateChunk hflush hwrite, rfl⟩
  | readChunk req => cases hwritten
  | deleteChunk req => cases hwritten

/-- The file of the chunk is what a write with this data leaves. -/
def StorageNode.HasWritten (n : StorageNode) (chunkId objectId : Str) (data : Bytes) : Prop :=
  ∃ (header : ChunkHeader) (now : TimestampMs), header.chunkId = chunkId ∧
    header.objectId = objectId ∧ accepts header.toData data = true ∧
    n.file chunkId = some (serialize (filledHeader now header.toData data) data)

theorem StorageNode.HasWritten.stores {n : StorageNode} {chunkId objectId : Str} {data : Bytes}
    (h : n.HasWritten chunkId objectId data) (hchunk : chunkId.length < 2 ^ 32)
    (hobject : objectId.length < 2 ^ 32) : n.Stores chunkId data := by
  obtain ⟨header, now, rfl, rfl, haccepts, hfile⟩ := h
  obtain ⟨hfits, hsize, hchecksum⟩ :=
    @storable_of_accepts now header.toData data hchunk hobject haccepts
  refine ⟨filledHeader now header.toData data, ?_, hchecksum⟩
  rw [readChunk_eq, hfile, Option.bind_some]
  exact deserialize_serialize hfits hsize hchecksum

section Cluster

variable {ι : Type}

/-- A read of the chunk at the address returns these bytes. -/
def Cluster.ReadsAt (reach : Str → Option ι) (c : Cluster ι) (address chunkId : Str)
    (data : Bytes) : Prop :=
  ∃ i, reach address = some i ∧ (c.nodes i).Reads chunkId data

theorem Cluster.ReadsAt.length_lt {reach : Str → Option ι} {c : Cluster ι}
    {address chunkId : Str} {data : Bytes} (h : c.ReadsAt reach address chunkId data) :
    data.length < 2 ^ 64 := by
  obtain ⟨i, -, hread⟩ := h
  exact hread.length_lt

/-- The call is answered, unless its address leads nowhere. -/
def Responds (reach : Str → Option ι) (e : Event Rpc Rpc.Reply) : Prop :=
  e.fate = .answered ∨ ∃ address q, e.request = .storage address q ∧ reach address = none

/-- The event is an acknowledged write of the chunk to the machine. -/
def WritesFile (reach : Str → Option ι) (e : Event Rpc Rpc.Reply) (i : ι) (chunkId : Str) :
    Prop :=
  ∃ address q fate r header data, e = ⟨.storage address q, fate, r⟩ ∧
    reach address = some i ∧ StorageRpc.acknowledged q r = true ∧
    q.written = some (header, data) ∧ header.chunkId = chunkId

/-- The event is a deletion of the chunk on the machine. -/
def RemovesFile (reach : Str → Option ι) (e : Event Rpc Rpc.Reply) (i : ι) (chunkId : Str) :
    Prop :=
  ∃ address q fate r, e = ⟨.storage address q, fate, r⟩ ∧ reach address = some i ∧
    q.deleted = some chunkId ∧ r ≠ none

variable [DecidableEq ι] {cfg : ClusterConfig} {reach : Str → Option ι}

omit [DecidableEq ι] in
theorem responds_metadata {q : MetadataRpc} {fate : Fate} {r : Option (Rpc.Reply (.metadata q))}
    (h : Responds reach ⟨.metadata q, fate, r⟩) : fate = .answered := by
  rcases h with hfate | ⟨_, _, heq, -⟩
  · exact hfate
  · cases heq

section Machine

variable {address : Str} {q : StorageRpc} {fate : Fate}
  {r : Option (Rpc.Reply (.storage address q))} {i : ι} {chunkId : Str}

omit [DecidableEq ι] in
/-- The writes of a call are on the machine that its address leads to. -/
theorem writesFile_iff : WritesFile reach ⟨.storage address q, fate, r⟩ i chunkId ↔
    reach address = some i ∧ q.acknowledged r = true ∧
      ∃ header data, q.written = some (header, data) ∧ header.chunkId = chunkId := by
  constructor
  · intro h
    obtain ⟨_, _, _, _, header, data, heq, hi, hack, hwritten, hid⟩ := h
    cases heq
    exact ⟨hi, hack, header, data, hwritten, hid⟩
  · intro h
    obtain ⟨hi, hack, header, data, hwritten, hid⟩ := h
    exact ⟨_, _, _, _, header, data, rfl, hi, hack, hwritten, hid⟩

omit [DecidableEq ι] in
theorem removesFile_iff : RemovesFile reach ⟨.storage address q, fate, r⟩ i chunkId ↔
    reach address = some i ∧ q.deleted = some chunkId ∧ r ≠ none := by
  constructor
  · intro h
    obtain ⟨_, _, _, _, heq, hi, hdeleted, hr⟩ := h
    cases heq
    exact ⟨hi, hdeleted, hr⟩
  · intro h
    obtain ⟨hi, hdeleted, hr⟩ := h
    exact ⟨_, _, _, _, rfl, hi, hdeleted, hr⟩

end Machine

/-- What a served call of a machine does to the files of all machines. -/
theorem serves_file {c c' : Cluster ι} {address : Str} {q : StorageRpc}
    {r : Option (Rpc.Reply (.storage address q))}
    (h : Cluster.Serves cfg reach (.storage address q) c r c') (i : ι) (chunkId : Str) :
    (c'.nodes i).file chunkId ≠ none ↔
      (reach address = some i ∧ q.acknowledged r = true ∧
        ∃ header data, q.written = some (header, data) ∧ header.chunkId = chunkId) ∨
      (c.nodes i).file chunkId ≠ none ∧
        ¬(reach address = some i ∧ q.deleted = some chunkId ∧ r ≠ none) := by
  obtain ⟨j, n, hreach, hserves, rfl⟩ := h.storage_cases
  have hmachine : reach address = some i ↔ i = j := by
    rw [hreach, Option.some_inj]
    exact eq_comm
  rw [hmachine]
  by_cases hi : i = j
  · subst hi
    rw [Cluster.setNode_self]
    simpa only [true_and] using hserves.fileChange.file_iff chunkId
  · rw [Cluster.setNode_of_ne _ _ hi]
    simp [hi]

/-- A file is there after a call if the call writes it, or if it was there before and the call
does not remove it. -/
theorem delivers_file {c c' : Cluster ι} {q : Rpc} {fate : Fate} {r : Option q.Reply}
    (h : Delivers (Cluster.Serves cfg reach) q fate c r c')
    (hresponds : Responds reach ⟨q, fate, r⟩) (i : ι) (chunkId : Str) :
    (c'.nodes i).file chunkId ≠ none ↔ WritesFile reach ⟨q, fate, r⟩ i chunkId ∨
      (c.nodes i).file chunkId ≠ none ∧ ¬RemovesFile reach ⟨q, fate, r⟩ i chunkId := by
  cases h with
  | requestLost =>
    obtain ⟨address, s, hq, hreach⟩ := hresponds.resolve_left (by simp)
    dsimp only at hq
    subst hq
    rw [writesFile_iff, removesFile_iff, hreach]
    simp
  | replyLost h =>
    obtain ⟨address, s, hq, hreach⟩ := hresponds.resolve_left (by simp)
    dsimp only at hq
    subst hq
    obtain ⟨j, n, hj, -⟩ := h.storage_cases
    rw [hreach] at hj
    cases hj
  | answered h =>
    cases q with
    | metadata q =>
      have hwrites : ¬WritesFile reach ⟨.metadata q, .answered, r⟩ i chunkId := by
        rintro ⟨_, _, _, _, _, _, heq, -⟩
        cases heq
      have hremoves : ¬RemovesFile reach ⟨.metadata q, .answered, r⟩ i chunkId := by
        rintro ⟨_, _, _, _, heq, -⟩
        cases heq
      rw [h.metadata_cases.1]
      simp [hwrites, hremoves]
    | storage address q =>
      rw [writesFile_iff, removesFile_iff]
      exact serves_file h i chunkId

/-- What writes of one chunk do to the cluster: the metadata stays, and so do the files
that are not overwritten. -/
structure Cluster.Overwrites (chunkId objectId : Str) (data : Bytes) (c c' : Cluster ι) :
    Prop where
  metadata : c'.metadata = c.metadata
  files : ∀ i id, (c'.nodes i).file id = (c.nodes i).file id ∨
    id = chunkId ∧ (c'.nodes i).HasWritten chunkId objectId data

section Overwrites

variable {chunkId objectId : Str} {data : Bytes} {c c' c₁ c₂ c₃ : Cluster ι}

omit [DecidableEq ι]

theorem Cluster.Overwrites.refl (c : Cluster ι) : Overwrites chunkId objectId data c c :=
  ⟨rfl, fun _ _ => .inl rfl⟩

/-- What has been written is there as long as nothing else is written. -/
theorem Cluster.Overwrites.hasWritten (h : Overwrites chunkId objectId data c c') {i : ι}
    (hwritten : (c.nodes i).HasWritten chunkId objectId data) :
    (c'.nodes i).HasWritten chunkId objectId data := by
  rcases h.files i chunkId with hfile | ⟨-, hwritten'⟩
  · obtain ⟨header, now, hchunk, hobject, haccepts, hdata⟩ := hwritten
    exact ⟨header, now, hchunk, hobject, haccepts, hfile.trans hdata⟩
  · exact hwritten'

/-- Writes of a chunk leave what is stored, unless it is other data of that chunk. -/
theorem Cluster.Overwrites.stores (h : Overwrites chunkId objectId data c c')
    (hchunk : chunkId.length < 2 ^ 32) (hobject : objectId.length < 2 ^ 32) {i : ι} {id : Str}
    {stored : Bytes} (hsame : id = chunkId → stored = data) (hs : (c.nodes i).Stores id stored) :
    (c'.nodes i).Stores id stored := by
  rcases h.files i id with hfile | ⟨hid, hwritten⟩
  · obtain ⟨header, hread, hchecksum⟩ := hs
    rw [StorageNode.readChunk_eq] at hread
    exact ⟨header, by rwa [StorageNode.readChunk_eq, hfile], hchecksum⟩
  · rw [hid, hsame hid]
    exact hwritten.stores hchunk hobject

theorem Cluster.Overwrites.trans (h : Overwrites chunkId objectId data c₁ c₂)
    (h' : Overwrites chunkId objectId data c₂ c₃) : Overwrites chunkId objectId data c₁ c₃ := by
  refine ⟨h'.metadata.trans h.metadata, fun i id => ?_⟩
  rcases h'.files i id with hfile' | hwritten'
  · rcases h.files i id with hfile | ⟨hid, hwritten⟩
    · exact .inl (hfile'.trans hfile)
    · exact .inr ⟨hid, h'.hasWritten hwritten⟩
  · exact .inr hwritten'

end Overwrites

private theorem serves_overwrites {c c' : Cluster ι} {address : Str} {q : StorageRpc}
    {r : Option q.Reply} {chunkId objectId : Str} {data : Bytes}
    (h : Cluster.Serves cfg reach (.storage address q) c r c')
    (hwrites : q.WritesChunk chunkId objectId data) :
    Cluster.Overwrites chunkId objectId data c c' ∧ (q.acknowledged r = true →
      ∃ i, reach address = some i ∧ (c'.nodes i).HasWritten chunkId objectId data) := by
  obtain ⟨i, n, hreach, hserves, rfl⟩ := h.storage_cases
  obtain ⟨header, hwritten, hid, hobject, -, -⟩ := hwrites
  cases hserves.fileChange with
  | same hrefused _ hfiles =>
    refine ⟨⟨rfl, fun j id => .inl ?_⟩, fun hack => ?_⟩
    · by_cases hj : j = i
      · subst hj
        rw [Cluster.setNode_self, hfiles]
      · rw [Cluster.setNode_of_ne _ _ hj]
    · rw [hrefused] at hack
      cases hack
  | wrote now hwritten' hack haccepts hfiles =>
    rw [hwritten] at hwritten'
    cases hwritten'
    have hstored : n.HasWritten chunkId objectId data :=
      ⟨header, now, hid, hobject, haccepts, (hfiles _).trans (if_pos hid.symm)⟩
    refine ⟨⟨rfl, fun j id => ?_⟩, fun _ => ⟨i, hreach, by rwa [Cluster.setNode_self]⟩⟩
    by_cases hj : j = i
    · subst hj
      rw [Cluster.setNode_self]
      by_cases hid' : id = chunkId
      · exact .inr ⟨hid', hstored⟩
      · exact .inl ((hfiles id).trans (if_neg fun heq => hid' (heq.trans hid)))
    · rw [Cluster.setNode_of_ne _ _ hj]
      exact .inl rfl
  | deleted hdeleted _ _ =>
    rw [StorageRpc.deleted_of_written hwritten] at hdeleted
    cases hdeleted

/-- A call that writes the chunk, and the machine that acknowledges it. -/
theorem delivers_overwrites {c c' : Cluster ι} {address : Str} {q : StorageRpc} {fate : Fate}
    {r : Option (Rpc.Reply (.storage address q))} {chunkId objectId : Str} {data : Bytes}
    (h : Delivers (Cluster.Serves cfg reach) (.storage address q) fate c r c')
    (hwrites : q.WritesChunk chunkId objectId data) :
    Cluster.Overwrites chunkId objectId data c c' ∧ (q.acknowledged r = true →
      ∃ i, reach address = some i ∧ (c'.nodes i).HasWritten chunkId objectId data) := by
  cases h with
  | answered h => exact serves_overwrites h hwrites
  | replyLost h => exact ⟨(serves_overwrites h hwrites).1, by simp⟩
  | requestLost => exact ⟨.refl c, by simp⟩

/-- A read changes nothing, and returns what the machine at the address reads. -/
theorem delivers_read {c c' : Cluster ι} {address : Str} {req : ReadChunkRequest} {fate : Fate}
    {r : Option (Rpc.Reply (.storage address (.readChunk req)))}
    (h : Delivers (Cluster.Serves cfg reach) (.storage address (.readChunk req)) fate c r c') :
    c' = c ∧
      (∀ resp, r = some resp → resp.success = true →
        c.ReadsAt reach address req.chunkId resp.data) ∧
      (Responds reach ⟨.storage address (.readChunk req), fate, r⟩ →
        (∀ resp, r = some resp → resp.success = false) →
        ∀ data, ¬c.ReadsAt reach address req.chunkId data) := by
  have hserved : ∀ {r}, Cluster.Serves cfg reach (.storage address (.readChunk req)) c r c' →
      c' = c ∧ ∃ i, reach address = some i ∧ r = some
        (StorageService.readResponse ((c.nodes i).1.readChunk (c.nodes i).2 req.chunkId)) := by
    intro r h
    obtain ⟨i, n, hreach, hserves, rfl⟩ := h.storage_cases
    cases hserves with
    | readChunk => exact ⟨by rw [Cluster.setNode, Function.update_eq_self], i, hreach, rfl⟩
  cases h with
  | answered h =>
    obtain ⟨hsame, i, hreach, rfl⟩ := hserved h
    refine ⟨hsame, fun resp hr hok => ?_, fun _ hfailed data => ?_⟩
    · cases hr
      cases hread : (c.nodes i).1.readChunk (c.nodes i).2 req.chunkId with
      | none =>
        rw [hread] at hok
        cases hok
      | some entry => exact ⟨i, hreach, entry.1, hread⟩
    · rintro ⟨j, hj, header, hread⟩
      rw [hreach] at hj
      cases hj
      have hfailed' := hfailed _ rfl
      rw [hread] at hfailed'
      cases hfailed'
  | replyLost h =>
    obtain ⟨hsame, i, hreach, -⟩ := hserved h
    refine ⟨hsame, by simp, fun hresponds => ?_⟩
    rcases hresponds with hfate | ⟨_, _, heq, hnone⟩
    · cases hfate
    · cases heq
      rw [hreach] at hnone
      cases hnone
  | requestLost =>
    refine ⟨rfl, by simp, fun hresponds _ data => ?_⟩
    rcases hresponds with hfate | ⟨_, _, heq, hnone⟩
    · cases hfate
    · cases heq
      rintro ⟨i, hreach, -⟩
      rw [hreach] at hnone
      cases hnone

/-! ## Runs -/

variable {α : Type} {p : ClusterProg α} {c c' : Cluster ι} {trace : List (Event Rpc Rpc.Reply)}
  {a : α}

/-- In a run that deletes nothing, the files at the end are those at the start and those
that it has written. -/
theorem file_of_writes (hrun : Runs (Cluster.Serves cfg reach) p c trace a c')
    (hresponds : ∀ e ∈ trace, Responds reach e) {i : ι} {chunkId : Str}
    (hkept : ∀ e ∈ trace, ¬RemovesFile reach e i chunkId) :
    (c'.nodes i).file chunkId ≠ none ↔
      (c.nodes i).file chunkId ≠ none ∨ ∃ e ∈ trace, WritesFile reach e i chunkId := by
  induction hrun with
  | done a s => simp
  | @call q next fate s s₁ s' r trace a hcall _ ih =>
    rw [List.forall_mem_cons] at hresponds hkept
    rw [ih hresponds.2 hkept.2, delivers_file hcall hresponds.1 i chunkId]
    simp only [List.mem_cons, exists_eq_or_imp, hkept.1, not_false_eq_true, and_true]
    rw [or_assoc, or_left_comm]

/-- In a run that writes nothing, the files at the end are those at the start that it has
not removed. -/
theorem file_of_deletions (hrun : Runs (Cluster.Serves cfg reach) p c trace a c')
    (hresponds : ∀ e ∈ trace, Responds reach e) {i : ι} {chunkId : Str}
    (hunwritten : ∀ e ∈ trace, ¬WritesFile reach e i chunkId) :
    (c'.nodes i).file chunkId ≠ none ↔
      (c.nodes i).file chunkId ≠ none ∧ ∀ e ∈ trace, ¬RemovesFile reach e i chunkId := by
  induction hrun with
  | done a s => simp
  | @call q next fate s s₁ s' r trace a hcall _ ih =>
    rw [List.forall_mem_cons] at hresponds hunwritten
    rw [ih hresponds.2 hunwritten.2, delivers_file hcall hresponds.1 i chunkId]
    simp only [List.forall_mem_cons, hunwritten.1, false_or]
    exact and_assoc

/-- The call writes and deletes chunks of these ids only. -/
def Rpc.ChangesOnly (ids : Str → Prop) : Rpc → Prop
  | .metadata _ => True
  | .storage _ q => (∀ header data, q.written = some (header, data) → ids header.chunkId) ∧
      ∀ chunkId, q.deleted = some chunkId → ids chunkId

/-- A call leaves the files of all other chunks. -/
theorem delivers_changesOnly {ids : Str → Prop} {q : Rpc} {fate : Fate} {r : Option q.Reply}
    (h : Delivers (Cluster.Serves cfg reach) q fate c r c') (hq : q.ChangesOnly ids)
    {chunkId : Str} (hid : ¬ids chunkId) (i : ι) :
    (c'.nodes i).file chunkId = (c.nodes i).file chunkId := by
  have hserved : ∀ {r}, Cluster.Serves cfg reach q c r c' →
      (c'.nodes i).file chunkId = (c.nodes i).file chunkId := by
    intro r h
    cases q with
    | metadata q => rw [h.metadata_cases.1]
    | storage address q =>
      obtain ⟨j, n, -, hserves, rfl⟩ := h.storage_cases
      by_cases hi : i = j
      · subst hi
        rw [Cluster.setNode_self]
        cases hserves.fileChange with
        | same _ _ hfiles => exact hfiles chunkId
        | wrote _ hwritten _ _ hfiles =>
          rw [hfiles chunkId, if_neg]
          intro heq
          exact hid (heq ▸ hq.1 _ _ hwritten)
        | deleted hdeleted _ hfiles =>
          rw [hfiles chunkId, if_neg]
          intro heq
          exact hid (heq ▸ hq.2 _ hdeleted)
      · rw [Cluster.setNode_of_ne _ _ hi]
  cases h with
  | answered h => exact hserved h
  | replyLost h => exact hserved h
  | requestLost => rfl

theorem file_of_changesOnly {ids : Str → Prop}
    (hrun : Runs (Cluster.Serves cfg reach) p c trace a c')
    (hissues : p.Issues (Rpc.ChangesOnly ids))
    {chunkId : Str} (hid : ¬ids chunkId) (i : ι) :
    (c'.nodes i).file chunkId = (c.nodes i).file chunkId := by
  refine Runs.invariant (I := fun c' => (c'.nodes i).file chunkId = (c.nodes i).file chunkId)
    (fun {q fate r c₁ c₂} hq hcall hsame => ?_) hrun hissues rfl
  exact (delivers_changesOnly hcall hq hid i).trans hsame

end Cluster

end StorageEngine
