import StorageEngine.Client.PutReadable
import StorageEngine.Recovery.RepairLoop

/-!
# The files that a cluster stores

For its users a cluster is a map from names to bytes.  `Cluster.Represents` says which map it
is, in two steps: every chunk of an object is available, and the chunks of an object make up the
file of its name.  A chunk is available as long as one of its replicas stores it.

* `Backs.same`, `Backs.overwrite`, `Backs.update` and `Backs.damage` are the changes that no
  user sees.
* `Backs.located`: what a name leads to.
-/

namespace StorageEngine

open Lib Lib.Remote MetadataStore MetadataService StorageClient

/-- What is stored under each name. -/
abbrev FileMap := Str → Option Bytes

/-- No file is found under the empty name. -/
def FileMap.visible (files : FileMap) (filename : Str) : Option Bytes :=
  if filename ≠ [] then files filename else none

/-- The data of an object, if its chunks have this content. -/
def ObjectInfo.dataOf (obj : ObjectInfo) (content : Str → Bytes) : Bytes :=
  ((obj.chunks.map ChunkInfo.chunkId).map content).flatten

variable {ι : Type}

/-- Some replica of the chunk stores its data, and no replica has other data. -/
structure ChunkAvailable (reach : Str → Option ι) (c : Cluster ι) (chunk : ChunkInfo)
    (data : Bytes) : Prop where
  checksum : chunk.checksum = Checksum.sha256 data
  stored : ∃ r ∈ chunk.replicas, c.StoredAt reach r.address chunk.chunkId data
  genuine : ∀ r ∈ chunk.replicas, ∀ {i contents}, reach r.address = some i →
    (c.nodes i).file chunk.chunkId = some contents → BeginsChunk data contents

/-- All chunks are available and have this content, and the objects are these files. -/
structure Cluster.Backs (reach : Str → Option ι) (c : Cluster ι) (content : Str → Bytes)
    (files : FileMap) : Prop where
  chunkIds : c.metadata.ChunkIds
  parented : c.metadata.Parented
  available : ∀ {key chunk}, c.metadata.Holds key chunk →
    ChunkAvailable reach c chunk (content chunk.chunkId)
  objects : ∀ {key obj}, c.metadata.store.objectsById.lookup key = some obj →
    files obj.filename = some (obj.dataOf content) ∧
      obj.size.toNat = (obj.dataOf content).length
  named : ∀ {name data}, files name = some data → ∃ key obj,
    c.metadata.store.objectsById.lookup key = some obj ∧ obj.filename = name

/-- The cluster stores these files. -/
def Cluster.Represents (reach : Str → Option ι) (c : Cluster ι) (files : FileMap) : Prop :=
  ∃ content, c.Backs reach content files

/-- Every chunk has a replica on one of these machines. -/
def Cluster.HasCopies (reach : Str → Option ι) (c : Cluster ι) (up : ι → Prop) : Prop :=
  ∀ {key chunk}, c.metadata.Holds key chunk → ∃ r ∈ chunk.replicas, ∃ i data,
    reach r.address = some i ∧ up i ∧ (c.nodes i).Stores chunk.chunkId data

/-! ## Available chunks -/

namespace ChunkAvailable

variable {reach : Str → Option ι} {c c' : Cluster ι} {chunk : ChunkInfo} {data : Bytes}

theorem of_readable (h : ChunkReadable reach c chunk data) : ChunkAvailable reach c chunk data := by
  obtain ⟨r, rest, hreplicas⟩ := List.exists_cons_of_ne_nil h.replicas
  refine ⟨h.checksum, ⟨r, by simp [hreplicas], h.stored r (by simp [hreplicas])⟩,
    fun r hr {i contents} hi hfile => ?_⟩
  obtain ⟨j, hj, hstores⟩ := h.stored r hr
  rw [hi] at hj
  cases hj
  exact hstores.reads.begins hfile

/-- A replica that can be read returns the data. -/
theorem data_eq (h : ChunkAvailable reach c chunk data) {r : ReplicaInfo}
    (hr : r ∈ chunk.replicas) {data' : Bytes}
    (hread : c.ReadsAt reach r.address chunk.chunkId data') : data' = data := by
  obtain ⟨i, hi, hreads⟩ := hread
  obtain ⟨contents, hfile⟩ := Option.ne_none_iff_exists'.mp hreads.file
  obtain ⟨header, hread⟩ := hreads
  rw [StorageNode.readChunk_eq, hfile, Option.bind_some] at hread
  exact (h.genuine r hr hi hfile).payload hread

theorem congr (h : ChunkAvailable reach c chunk data)
    (hfiles : ∀ i, (c'.nodes i).file chunk.chunkId = (c.nodes i).file chunk.chunkId) :
    ChunkAvailable reach c' chunk data := by
  refine ⟨h.checksum, ?_, fun r hr {i contents} hi hfile => ?_⟩
  · obtain ⟨r, hr, i, hi, hstores⟩ := h.stored
    exact ⟨r, hr, i, hi, hstores.congr (hfiles i)⟩
  · rw [hfiles] at hfile
    exact h.genuine r hr hi hfile

/-- The chunk may be written again. -/
theorem overwrite (h : ChunkAvailable reach c chunk data) {chunkId objectId : Str}
    {written : Bytes} (hoverwrites : Cluster.Overwrites chunkId objectId written c c')
    (hchunk : chunkId.length < 2 ^ 32) (hobject : objectId.length < 2 ^ 32)
    (hsame : chunk.chunkId = chunkId → data = written) : ChunkAvailable reach c' chunk data := by
  refine ⟨h.checksum, ?_, fun r hr {i contents} hi hfile => ?_⟩
  · obtain ⟨r, hr, i, hi, hstores⟩ := h.stored
    exact ⟨r, hr, i, hi, hoverwrites.stores hchunk hobject hsame hstores⟩
  · rcases hoverwrites.files i chunk.chunkId with hkept | ⟨hid, hwritten⟩
    · rw [hkept] at hfile
      exact h.genuine r hr hi hfile
    · have hstores := hwritten.stores hchunk hobject
      rw [← hid, ← hsame hid] at hstores
      exact hstores.reads.begins hfile

end ChunkAvailable

namespace Cluster.Backs

variable {reach : Str → Option ι} {c c' : Cluster ι} {content : Str → Bytes} {files : FileMap}

/-- A cluster without objects has no files. -/
theorem of_empty (hobjects : c.metadata.store.objectsById = ∅)
    (hnames : c.metadata.store.filenameToId = ∅) : c.Backs reach content fun _ => none where
  chunkIds :=
    { indexed :=
        { keyed := fun hobj => by simp [hobjects] at hobj
          inverse := by
            rw [hobjects, hnames]
            exact UniqueIndex.empty _ }
      nodup := fun hobj => by simp [hobjects] at hobj
      disjoint := fun hobj => by simp [hobjects] at hobj
      drawn := fun hobj => by simp [hobjects] at hobj }
  parented := fun hobj => by simp [hobjects] at hobj
  available := fun hheld => by
    obtain ⟨obj, hobj, -⟩ := hheld
    simp [hobjects] at hobj
  objects := fun hobj => by simp [hobjects] at hobj
  named := fun hfile => by simp at hfile

/-- The ids of a held chunk fit their length prefixes. -/
theorem id_lengths (h : c.Backs reach content files) {key : Str} {chunk : ChunkInfo}
    (hheld : c.metadata.Holds key chunk) :
    chunk.chunkId.length < 2 ^ 32 ∧ chunk.objectId.length < 2 ^ 32 := by
  rw [MetadataNode.Parented.of_holds h.parented hheld]
  exact ⟨h.chunkIds.chunkId_length hheld, h.chunkIds.key_length hheld⟩

/-! ## Changes that no user sees -/

/-- The objects are the same, and so are the files of their chunks. -/
theorem same (h : c.Backs reach content files) (hids : c'.metadata.ChunkIds)
    (hobjects : SameObjects c.metadata.store c'.metadata.store)
    (hfiles : ∀ {key chunk}, c.metadata.Holds key chunk → ∀ i,
      (c'.nodes i).file chunk.chunkId = (c.nodes i).file chunk.chunkId) :
    c'.Backs reach content files where
  chunkIds := hids
  parented := fun hobj => by
    rw [hobjects.1] at hobj
    exact h.parented hobj
  available := fun hheld => by
    rw [MetadataNode.holds_same hobjects] at hheld
    exact (h.available hheld).congr (hfiles hheld)
  objects := fun hobj => by
    rw [hobjects.1] at hobj
    exact h.objects hobj
  named := fun hfile => by
    rw [hobjects.1]
    exact h.named hfile

/-- A chunk is written again, with the content that it has. -/
theorem overwrite (h : c.Backs reach content files) {chunkId objectId : Str}
    (hoverwrites : Cluster.Overwrites chunkId objectId (content chunkId) c c')
    (hchunk : chunkId.length < 2 ^ 32) (hobject : objectId.length < 2 ^ 32) :
    c'.Backs reach content files where
  chunkIds := hoverwrites.metadata ▸ h.chunkIds
  parented := hoverwrites.metadata ▸ h.parented
  available := fun hheld => by
    rw [hoverwrites.metadata] at hheld
    exact (h.available hheld).overwrite hoverwrites hchunk hobject fun heq => by rw [heq]
  objects := fun hobj => by
    rw [hoverwrites.metadata] at hobj
    exact h.objects hobj
  named := fun hfile => by
    rw [hoverwrites.metadata]
    exact h.named hfile

/-- The entry of a chunk is replaced, and the chunk is still available. -/
theorem update (h : c.Backs reach content files) {svc : ClusterConfig} {req : UpdateChunkRequest}
    {resp : StatusResponse} (hnodes : c'.nodes = c.nodes)
    (hserves : MetadataService.Serves svc (.updateChunk req) c.metadata resp c'.metadata)
    (hown : MetadataRpc.OwnChunk (.updateChunk req))
    (havailable : ChunkAvailable reach c req.chunk.fromProto (content req.chunk.chunkId)) :
    c'.Backs reach content files := by
  have hkept : ∀ {chunk data}, ChunkAvailable reach c chunk data →
      ChunkAvailable reach c' chunk data := by
    intro chunk data hchunk
    exact hchunk.congr fun i => by rw [hnodes]
  refine ⟨h.chunkIds.serve hserves, MetadataNode.Parented.serve h.parented hown hserves,
    fun {key chunk} hheld => ?_, fun {key obj'} hobj' => ?_, fun {name data} hfile => ?_⟩
  · apply hkept
    rcases h.chunkIds.update_cases hserves with hreplaces | ⟨hsame, -⟩
    · rcases (hreplaces.holds key chunk).mp hheld with ⟨-, rfl⟩ | ⟨hheld, -⟩
      · exact havailable
      · exact h.available hheld
    · exact h.available (hsame ▸ hheld)
  · cases hserves.change with
    | same hobjects _ =>
      rw [hobjects.1] at hobj'
      exact h.objects hobj'
    | created hq => cases hq
    | deleted hq => cases hq
    | updated _ hobj hreplace hn =>
      rw [hn] at hobj'
      rcases lookup_insert_cases hobj' with ⟨rfl, rfl⟩ | ⟨-, hobj'⟩
      · have hdata := h.objects hobj
        rw [ObjectInfo.dataOf, ← replaceChunk_ids hreplace] at hdata
        exact hdata
      · exact h.objects hobj'
  · obtain ⟨key, obj, hobj, hname⟩ := h.named hfile
    cases hserves.change with
    | same hobjects _ =>
      rw [hobjects.1]
      exact ⟨key, obj, hobj, hname⟩
    | created hq => cases hq
    | deleted hq => cases hq
    | @updated req' old chunks now _ hold _ hn =>
      rw [hn]
      by_cases hkey : key = req'.objectId
      · subst hkey
        rw [hold] at hobj
        cases hobj
        exact ⟨_, _, Finmap.lookup_insert _, hname⟩
      · exact ⟨key, obj, (Finmap.lookup_insert_of_ne _ hkey).trans hobj, hname⟩

/-- A machine loses files, or the ends of files, and every chunk still has a copy. -/
theorem damage [DecidableEq ι] (h : c.Backs reach content files) {i : ι} {disk : FileSystem}
    (hdisk : LeftOf disk (c.nodes i).2)
    (hcopies : (c.setNode i ((c.nodes i).1, disk)).HasCopies reach fun _ => True) :
    (c.setNode i ((c.nodes i).1, disk)).Backs reach content files := by
  have hleft : ∀ {j chunkId contents},
      ((c.setNode i ((c.nodes i).1, disk)).nodes j).file chunkId = some contents →
        ∃ before, (c.nodes j).file chunkId = some before ∧ contents <+: before := by
    intro j chunkId contents hfile
    by_cases hj : j = i
    · subst hj
      rw [Cluster.setNode_self] at hfile
      exact hdisk _ _ hfile
    · rw [Cluster.setNode_of_ne _ _ hj] at hfile
      exact ⟨contents, hfile, List.prefix_refl _⟩
  refine ⟨h.chunkIds, h.parented, fun {key chunk} hheld => ?_, h.objects, h.named⟩
  have hgenuine : ∀ r ∈ chunk.replicas, ∀ {j contents}, reach r.address = some j →
      ((c.setNode i ((c.nodes i).1, disk)).nodes j).file chunk.chunkId = some contents →
        BeginsChunk (content chunk.chunkId) contents := by
    intro r hr j contents hj hfile
    obtain ⟨before, hbefore, hstarts⟩ := hleft hfile
    exact ((h.available hheld).genuine r hr hj hbefore).shorten hstarts
  obtain ⟨r, hr, j, data, hj, -, hstores⟩ := hcopies hheld
  obtain ⟨contents, hfile⟩ := Option.ne_none_iff_exists'.mp hstores.reads.file
  have hdata : data = content chunk.chunkId := by
    obtain ⟨header, hread⟩ := hstores.reads
    rw [StorageNode.readChunk_eq, hfile, Option.bind_some] at hread
    exact (hgenuine r hr hj hfile).payload hread
  exact ⟨(h.available hheld).checksum, ⟨r, hr, j, hj, hdata ▸ hstores⟩, hgenuine⟩

/-! ## What a name leads to -/

theorem located (h : c.Backs reach content files) {filename : Str} {obj : ObjectInfo}
    (hobj : c.locate filename = some obj) :
    files.visible filename = some (obj.dataOf content) ∧ obj.filename = filename ∧
      obj.size.toNat = (obj.dataOf content).length := by
  obtain ⟨hname, id, hid, hstored⟩ := locate_eq_some.mp hobj
  obtain ⟨obj', hstored', hfilename⟩ := h.chunkIds.indexed.inverse.pointed hid
  rw [hstored] at hstored'
  cases hstored'
  obtain ⟨hfile, hsize⟩ := h.objects hstored
  refine ⟨?_, hfilename, hsize⟩
  rw [FileMap.visible, if_pos hname, ← hfilename]
  exact hfile

theorem not_located (h : c.Backs reach content files) {filename : Str}
    (hnone : c.locate filename = none) : files.visible filename = none := by
  unfold FileMap.visible
  split
  · next hname =>
    by_contra hfile
    obtain ⟨data, hfile⟩ := Option.ne_none_iff_exists'.mp hfile
    obtain ⟨key, obj, hobj, rfl⟩ := h.named hfile
    have hlocated := locate_eq_some.mpr ⟨hname, key, h.chunkIds.indexed.inverse.indexed hobj, hobj⟩
    rw [hnone] at hlocated
    cases hlocated
  · rfl

end Cluster.Backs

end StorageEngine
