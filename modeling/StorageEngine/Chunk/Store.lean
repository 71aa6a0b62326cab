import StorageEngine.Chunk.Format

/-!
# The chunk store of a storage node

`src/chunk/chunk_store.cpp`.  A store keeps one file per chunk in its base
directory, and an index of payload sizes in memory.  The file system is the
map from the paths of regular files to their contents; it outlives the store,
so the operations take it and return it next to the store.

A file operation can fail.  Each operation takes the outcome of its file calls
as an argument: `WriteIO` and `RemoveIO`.  The exception that `fs::remove`
throws is `none`.
-/

namespace StorageEngine

open ChunkFormat

/-! ## Paths and files -/

/-- The regular files of the machine, by path. -/
abbrev FileSystem := UnorderedMap Str Bytes

/-- `fs::path(base) / name` for a relative `name`. -/
def joinPath (base name : Str) : Str :=
  if base = [] ∨ base.getLast? = some 47 then base ++ name
  else base ++ str "/" ++ name

/-- `names` lists the regular files that `directory_iterator(base)` meets, in
the order it meets them. -/
def ListsDirectory (files : FileSystem) (base : Str) (names : List Str) : Prop :=
  names.Nodup ∧
    ∀ name, name ∈ names ↔ name ≠ [] ∧ PlainName name ∧ joinPath base name ∈ files

/-- The outcome of the file calls of `write_chunk`.  A call that fails on the
contents is `some n`: it leaves the first `n` bytes in the file.  `written` is
the call that the stream reports, `flushed` is the flush in its destructor,
which nobody checks. -/
structure WriteIO where
  opened : Bool := true
  written : Option Nat := none
  flushed : Option Nat := none
  renamed : Bool := true
  /-- Whether the `fs::remove` of an error path succeeds. -/
  removed : Bool := true
  deriving DecidableEq, Repr

/-- All file calls succeed. -/
def WriteIO.ok : WriteIO := {}

/-- What is in the file after a write of `data` with this outcome. -/
def contentsAfter (outcome : Option Nat) (data : Bytes) : Bytes :=
  match outcome with
  | none => data
  | some n => data.take n

/-- The file has all of the data when the write does not stop before its end. -/
theorem contentsAfter_eq_self_iff (outcome : Option Nat) (data : Bytes) :
    contentsAfter outcome data = data ↔ ∀ n, outcome = some n → data.length ≤ n := by
  unfold contentsAfter
  cases outcome with
  | none => simp
  | some n => simp [List.take_eq_self_iff]

/-- The outcome of `fs::remove(path)`. -/
inductive RemoveIO where
  | removed
  | notFound
  | failed
  deriving DecidableEq, Repr

/-! ## The store -/

structure ChunkStore where
  basePath : Str
  chunkSizes : UnorderedMap Str UInt64 := ∅
  totalStored : UInt64 := 0
  deriving DecidableEq

namespace ChunkStore

/-- One turn of the constructor's loop, for the file called `name`. -/
def scanFile (files : FileSystem) (s : ChunkStore) (name : Str) : ChunkStore :=
  if name.length < 10 ∨ name.drop (name.length - 5) ≠ str ".data" then s
  else
    match deserialize ((files.lookup (joinPath s.basePath name)).getD []) with
    | none => s
    | some (header, _) =>
      { s with
        chunkSizes := s.chunkSizes.insert header.chunkId header.size
        totalStored := s.totalStored + header.size }

/-- The constructor, for a directory that lists `names`. -/
def construct (basePath : Str) (files : FileSystem) (names : List Str) : ChunkStore :=
  names.foldl (scanFile files) { basePath }

/-- `chunk_file_path`, for a given base directory. -/
def chunkFilePath (basePath chunkId : Str) : Str :=
  joinPath basePath (str "chunk_" ++ chunkId ++ str ".data")

/-- The temporary file that `write_chunk` fills before the rename. -/
def tmpPath (basePath chunkId : Str) : Str :=
  chunkFilePath basePath chunkId ++ str ".tmp"

/-- The header that `write_chunk` stores: the caller's, with an empty checksum
and a zero time filled in. -/
def filledHeader (now : TimestampMs) (header : ChunkHeaderData) (payload : Bytes) :
    ChunkHeaderData :=
  { header with
    checksum := if header.checksum = [] then Checksum.sha256 payload else header.checksum
    createdAtMs := if header.createdAtMs = 0 then now else header.createdAtMs }

/-- The statistics that a successful write updates. -/
def recordWrite (s : ChunkStore) (chunkId : Str) (size : UInt64) : ChunkStore :=
  let kept := match s.chunkSizes.lookup chunkId with
    | some old => s.totalStored - old
    | none => s.totalStored
  { s with
    chunkSizes := s.chunkSizes.insert chunkId size
    totalStored := kept + size }

/-- The two checks at the head of `write_chunk`. -/
def accepts (header : ChunkHeaderData) (payload : Bytes) : Bool :=
  header.size.toNat == payload.length &&
    (header.checksum == [] || Checksum.sha256 payload == header.checksum)

/-- `fs::remove(tmp_path); return false;`. -/
def discardTmp (io : WriteIO) (s : ChunkStore) (files : FileSystem) (tmp : Str) :
    Option Bool × ChunkStore × FileSystem :=
  if io.removed then (some false, s, files.erase tmp) else (none, s, files)

def writeChunk (io : WriteIO) (now : TimestampMs) (s : ChunkStore) (files : FileSystem)
    (header : ChunkHeaderData) (payload : Bytes) :
    Option Bool × ChunkStore × FileSystem :=
  if !accepts header payload then (some false, s, files)
  else
    let data := serialize (filledHeader now header payload) payload
    let path := chunkFilePath s.basePath header.chunkId
    let tmp := tmpPath s.basePath header.chunkId
    if !io.opened then (some false, s, files)
    else if io.written.isSome then
      discardTmp io s (files.insert tmp (contentsAfter io.written data)) tmp
    else
      let stored := contentsAfter io.flushed data
      let files := files.insert tmp stored
      if !io.renamed then discardTmp io s files tmp
      else
        (some true, recordWrite s header.chunkId header.size,
          (files.erase tmp).insert path stored)

def readChunk (s : ChunkStore) (files : FileSystem) (chunkId : Str) :
    Option (ChunkHeaderData × Bytes) :=
  match files.lookup (chunkFilePath s.basePath chunkId) with
  | none => none
  | some data => deserialize data

/-- The statistics that a deletion updates. -/
def recordDelete (s : ChunkStore) (chunkId : Str) : ChunkStore :=
  match s.chunkSizes.lookup chunkId with
  | some old =>
    { s with
      chunkSizes := s.chunkSizes.erase chunkId
      totalStored := s.totalStored - old }
  | none => s

def deleteChunk (io : RemoveIO) (s : ChunkStore) (files : FileSystem) (chunkId : Str) :
    Option Bool × ChunkStore × FileSystem :=
  let path := chunkFilePath s.basePath chunkId
  if path ∉ files then (some false, s, files)
  else
    let s := recordDelete s chunkId
    match io with
    | .removed => (some true, s, files.erase path)
    | .notFound => (some false, s, files.erase path)
    | .failed => (none, s, files)

def chunkExists (s : ChunkStore) (files : FileSystem) (chunkId : Str) : Bool :=
  chunkFilePath s.basePath chunkId ∈ files

/-- `verify_chunk`: its result, and the value left in `checksum_out` if it
assigns one. -/
def verifyChunk (s : ChunkStore) (files : FileSystem) (chunkId : Str) :
    Bool × Option Str :=
  match readChunk s files chunkId with
  | none => (false, none)
  | some (header, payload) =>
    (Checksum.verify payload header.checksum, some header.checksum)

/-! ## Paths of distinct chunks -/

theorem joinPath_inj {base a b : Str} (h : joinPath base a = joinPath base b) :
    a = b := by
  simp only [joinPath] at h
  split at h
  · exact List.append_cancel_left h
  · exact List.append_cancel_left h

/-- Distinct ids have distinct files. -/
theorem chunkFilePath_inj {base a b : Str}
    (h : chunkFilePath base a = chunkFilePath base b) : a = b := by
  have hname := joinPath_inj h
  rw [List.append_assoc, List.append_assoc] at hname
  exact List.append_cancel_right (List.append_cancel_left hname)

/-- A temporary file is no chunk file, of any id: their last bytes differ. -/
theorem chunkFilePath_ne_tmpPath (base a b : Str) :
    chunkFilePath base a ≠ tmpPath base b := by
  have hlast : ∀ name : Str, (joinPath base (name ++ str ".data")).getLast? = some 97 := by
    intro name
    rw [joinPath]
    split <;> simp [List.getLast?_append, show (str ".data").getLast? = some 97 from rfl]
  intro h
  have htmp : (tmpPath base b).getLast? = some 112 := by
    simp [tmpPath, List.getLast?_append, show (str ".tmp").getLast? = some 112 from rfl]
  rw [← h, chunkFilePath, hlast] at htmp
  exact absurd htmp (by decide)

end ChunkStore

end StorageEngine
