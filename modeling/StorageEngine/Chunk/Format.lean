import StorageEngine.Lib.BigEndian
import StorageEngine.Lib.Cursor
import StorageEngine.Common.Checksum

/-!
# The on-disk chunk format

`src/chunk/chunk_format.cpp`: a header of seven fields and the payload behind
it.  The encoder appends to a buffer and the decoder reads with a cursor.  A
cursor is a natural number here, and the exception `buffer underflow` is
`none`, as is the `std::nullopt` that `deserialize` turns it into.

The round trip is assembled from the fields.  `reads_u32`, `reads_u64` and
`reads_string` are the round trips of the three field types, and
`reads_header` threads them through the header.
-/

namespace StorageEngine

open Lib.BigEndian Lib.Cursor

structure ChunkHeaderData where
  chunkId : Str := []
  objectId : Str := []
  version : UInt32 := 1
  size : UInt64 := 0
  checksum : Str := []
  createdAtMs : UInt64 := 0
  deriving DecidableEq, Repr

namespace ChunkFormat

/-- `"DSEK"`. -/
def chunkMagic : UInt32 := 0x4445534B

/-! ## The encoder -/

def appendU32 (buf : Bytes) (v : UInt32) : Bytes :=
  buf ++ [((v >>> 24) &&& 0xff).toUInt8, ((v >>> 16) &&& 0xff).toUInt8,
    ((v >>> 8) &&& 0xff).toUInt8, (v &&& 0xff).toUInt8]

def appendU64 (buf : Bytes) (v : UInt64) : Bytes :=
  buf ++ ([7, 6, 5, 4, 3, 2, 1, 0] : List UInt64).map fun i =>
    ((v >>> (i * 8)) &&& 0xff).toUInt8

def appendString (buf : Bytes) (s : Str) : Bytes :=
  appendU32 buf (UInt32.ofNat s.length) ++ s

def headerOnlyBytes (header : ChunkHeaderData) : Bytes :=
  let buf := appendU32 [] chunkMagic
  let buf := appendU32 buf header.version
  let buf := appendString buf header.chunkId
  let buf := appendString buf header.objectId
  let buf := appendU64 buf header.size
  let buf := appendString buf header.checksum
  appendU64 buf header.createdAtMs

def serialize (header : ChunkHeaderData) (payload : Bytes) : Bytes :=
  headerOnlyBytes header ++ payload

/-! ## The decoder -/

def readU32 : Reader UInt8 UInt32 := fun buf pos =>
  if pos + 4 > buf.length then none
  else
    some (((buf.getD pos 0).toUInt32 <<< 24) |||
      ((buf.getD (pos + 1) 0).toUInt32 <<< 16) |||
      ((buf.getD (pos + 2) 0).toUInt32 <<< 8) |||
      (buf.getD (pos + 3) 0).toUInt32, pos + 4)

def readU64 : Reader UInt8 UInt64 := fun buf pos =>
  if pos + 8 > buf.length then none
  else
    some ((List.range 8).foldl
      (fun v i => (v <<< 8) ||| (buf.getD (pos + i) 0).toUInt64) 0, pos + 8)

/-- The check and the copy of `read_string`, once the length is known. -/
def readBytes (len : Nat) : Reader UInt8 Str := fun buf pos =>
  if pos + len > buf.length then none
  else some ((buf.drop pos).take len, pos + len)

def readString : Reader UInt8 Str := do
  let len ← readU32
  readBytes len.toNat

/-- The fields that `deserialize` reads behind the magic number. -/
def readFields : Reader UInt8 ChunkHeaderData := do
  let version ← readU32
  let chunkId ← readString
  let objectId ← readString
  let size ← readU64
  let checksum ← readString
  let createdAtMs ← readU64
  pure { chunkId, objectId, version, size, checksum, createdAtMs }

def deserialize (data : Bytes) : Option (ChunkHeaderData × Bytes) :=
  match readU32 data 0 with
  | none => none
  | some (magic, pos) =>
    if magic ≠ chunkMagic then none
    else
      match readFields data pos with
      | none => none
      | some (header, pos) =>
        let payload := data.drop pos
        if payload.length ≠ header.size.toNat then none
        else if !Checksum.verify payload header.checksum then none
        else some (header, payload)

/-! ## The fields -/

theorem joinBytes_appendU32 (v : UInt32) :
    joinBytes (appendU32 [] v) = v.toNat := by
  have hhigh : v.toNat / 2 ^ 32 = 0 := Nat.div_eq_of_lt v.toNat_lt
  have hlow := byteOfU32 v 0
  rw [UInt32.shiftRight_zero] at hlow
  calc joinBytes (appendU32 [] v)
      = (((v.toNat / 2 ^ 32 * 256 + v.toNat / 2 ^ 24 % 256) * 256 +
          v.toNat / 2 ^ 16 % 256) * 256 + v.toNat / 2 ^ 8 % 256) * 256 +
          v.toNat / 2 ^ 0 % 256 := by
        simp only [joinBytes, appendU32, List.nil_append, List.foldl_cons,
          List.foldl_nil, byteOfU32, hlow, hhigh, Nat.zero_mul]
        rfl
    _ = v.toNat / 2 ^ 0 := by simp only [digit_step]
    _ = v.toNat := Nat.div_one _

theorem joinBytes_appendU64 (v : UInt64) :
    joinBytes (appendU64 [] v) = v.toNat := by
  rw [appendU64, List.nil_append]
  exact joinBytes_bytesOfU64 v

theorem reads_u32 (v : UInt32) : Reads readU32 (appendU32 [] v) v := by
  intro before after
  have hlen : (appendU32 [] v).length = 4 := rfl
  have hfit : ¬ before.length + 4 > (before ++ appendU32 [] v ++ after).length := by
    simp only [List.length_append, hlen]
    omega
  have hget : ∀ i < 4, (before ++ appendU32 [] v ++ after).getD (before.length + i) 0 =
      (appendU32 [] v).getD i 0 :=
    fun i hi => getD_field before (appendU32 [] v) after 0 hi
  rw [readU32, if_neg hfit, hlen, ← Nat.add_zero before.length, hget 0 (by decide)]
  simp only [Nat.add_zero]
  rw [hget 1 (by decide), hget 2 (by decide), hget 3 (by decide)]
  congr 2
  apply UInt32.toNat_inj.mp
  rw [joinU32]
  exact joinBytes_appendU32 v

theorem reads_u64 (v : UInt64) : Reads readU64 (appendU64 [] v) v := by
  intro before after
  have hlen : (appendU64 [] v).length = 8 := rfl
  have hfit : ¬ before.length + 8 > (before ++ appendU64 [] v ++ after).length := by
    simp only [List.length_append, hlen]
    omega
  have hloop := foldl_field (fun (w : UInt64) b => (w <<< 8) ||| b.toUInt64) 0
    before (appendU64 [] v) after 0
  rw [hlen] at hloop
  have hvalue : (appendU64 [] v).foldl
      (fun (w : UInt64) b => (w <<< 8) ||| b.toUInt64) 0 = v := by
    apply UInt64.toNat_inj.mp
    rw [joinU64 _ (Nat.le_of_eq hlen)]
    exact joinBytes_appendU64 v
  rw [readU64, if_neg hfit, hlen, hloop, hvalue]

theorem reads_bytes (s : Str) : Reads (readBytes s.length) s s := by
  intro before after
  have hfit : ¬ before.length + s.length > (before ++ s ++ after).length := by
    simp only [List.length_append]
    omega
  rw [readBytes, if_neg hfit, extract_field]

theorem reads_string {s : Str} (hs : s.length < 2 ^ 32) :
    Reads readString (appendString [] s) s := by
  have hlen : (UInt32.ofNat s.length).toNat = s.length :=
    UInt32.toNat_ofNat_of_lt hs
  have hbytes := reads_bytes s
  rw [← hlen] at hbytes
  exact (reads_u32 (UInt32.ofNat s.length)).bind hbytes

/-! ## The header -/

/-- The strings of a header fit their four-byte length prefix. -/
def Fits (header : ChunkHeaderData) : Prop :=
  header.chunkId.length < 2 ^ 32 ∧ header.objectId.length < 2 ^ 32 ∧
    header.checksum.length < 2 ^ 32

/-- The encoded fields behind the magic number. -/
def fieldBytes (header : ChunkHeaderData) : Bytes :=
  appendU32 [] header.version ++ (appendString [] header.chunkId ++
    (appendString [] header.objectId ++ (appendU64 [] header.size ++
      (appendString [] header.checksum ++ (appendU64 [] header.createdAtMs ++ [])))))

theorem headerOnlyBytes_eq (header : ChunkHeaderData) :
    headerOnlyBytes header = appendU32 [] chunkMagic ++ fieldBytes header := by
  simp [headerOnlyBytes, fieldBytes, appendString, appendU32, appendU64]

theorem reads_fields {header : ChunkHeaderData} (h : Fits header) :
    Reads readFields (fieldBytes header) header := by
  obtain ⟨hchunk, hobject, hchecksum⟩ := h
  refine (reads_u32 header.version).bind ?_
  refine (reads_string hchunk).bind ?_
  refine (reads_string hobject).bind ?_
  refine (reads_u64 header.size).bind ?_
  refine (reads_string hchecksum).bind ?_
  refine (reads_u64 header.createdAtMs).bind ?_
  exact reads_pure header

/-- Decoding an encoded chunk gives the header and the payload back. -/
theorem deserialize_serialize {header : ChunkHeaderData} {payload : Bytes}
    (hfits : Fits header) (hsize : header.size.toNat = payload.length)
    (hchecksum : header.checksum = Checksum.sha256 payload) :
    deserialize (serialize header payload) = some (header, payload) := by
  have hbytes : serialize header payload =
      appendU32 [] chunkMagic ++ fieldBytes header ++ payload := by
    rw [serialize, headerOnlyBytes_eq]
  have hmagic := reads_u32 chunkMagic [] (fieldBytes header ++ payload)
  have hfields := reads_fields hfits (appendU32 [] chunkMagic) payload
  have hrest : (serialize header payload).drop
      ((appendU32 [] chunkMagic).length + (fieldBytes header).length) = payload := by
    rw [hbytes, ← List.length_append, List.drop_left]
  rw [List.nil_append, List.length_nil, Nat.zero_add, ← List.append_assoc,
    ← hbytes] at hmagic
  rw [← hbytes] at hfields
  rw [deserialize, hmagic]
  simp only [ne_eq, not_true_eq_false, if_false, hfields, hrest, hsize]
  rw [(Checksum.verify_iff payload header.checksum).mpr hchecksum.symm]
  simp

/-- Any payload is encoded under a header that is made for it. -/
theorem exists_encoding {chunkId objectId : Str} {payload : Bytes}
    (hchunk : chunkId.length < 2 ^ 32) (hobject : objectId.length < 2 ^ 32)
    (hlength : payload.length < 2 ^ 64) :
    ∃ header, header.chunkId = chunkId ∧ header.size = UInt64.ofNat payload.length ∧
      deserialize (serialize header payload) = some (header, payload) := by
  have hchecksum : (Checksum.sha256 payload).length < 2 ^ 32 := by
    rw [Checksum.sha256_length]
    decide
  let header : ChunkHeaderData :=
    { chunkId := chunkId
      objectId := objectId
      size := UInt64.ofNat payload.length
      checksum := Checksum.sha256 payload }
  refine ⟨header, rfl, rfl, deserialize_serialize ⟨hchunk, hobject, hchecksum⟩ ?_ rfl⟩
  exact UInt64.toNat_ofNat_of_lt' hlength

/-- The round trip of the format, for any version and time, any ids and any
payload. -/
theorem chunk_round_trip (header : ChunkHeaderData) (payload : Bytes)
    (hchunk : header.chunkId.length < 2 ^ 32)
    (hobject : header.objectId.length < 2 ^ 32)
    (hlength : header.checksum.length < 2 ^ 32)
    (hsize : header.size.toNat = payload.length)
    (hchecksum : header.checksum = Checksum.sha256 payload) :
    deserialize (serialize header payload) = some (header, payload) :=
  deserialize_serialize ⟨hchunk, hobject, hlength⟩ hsize hchecksum

/-- An empty chunk whose ids are empty and not text. -/
theorem chunk_round_trip_empty :
    deserialize (serialize
        { chunkId := [], objectId := [0, 255, 47], checksum := Checksum.sha256 [] } []) =
      some ({ chunkId := [], objectId := [0, 255, 47], checksum := Checksum.sha256 [] }, []) := by
  generalize hchecksum : Checksum.sha256 [] = checksum
  have hlength : checksum.length < 2 ^ 32 := by
    rw [← hchecksum, Checksum.sha256_length]
    decide
  refine chunk_round_trip _ [] ?_ ?_ hlength ?_ hchecksum.symm
  · show 0 < 2 ^ 32
    decide
  · show 3 < 2 ^ 32
    decide
  · rfl

end ChunkFormat

end StorageEngine
