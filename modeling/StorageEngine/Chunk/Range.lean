import StorageEngine.Chunk.Canonical
import StorageEngine.Chunk.Store

/-!
# Range reads

`read_chunk_range` adds the offset and the length of the request in 64 bits.  The sum
wraps around for a length that asks for everything from an offset on, and the end of the
range is then before its beginning.
-/

namespace StorageEngine.ChunkStore

open ChunkFormat

/-- The vector of the bytes between two positions.  `none` is the exception of the
constructor when the second position is before the first. -/
def copyRange (data : Bytes) (first last : UInt64) : Option Bytes :=
  if last < first then none
  else some ((data.drop first.toNat).take (last.toNat - first.toNat))

/-- `read_chunk_range`.  The outer `none` is a call that ends with an exception. -/
def readChunkRange (s : ChunkStore) (files : FileSystem) (chunkId : Str)
    (offset length : UInt64) : Option (Option Bytes) :=
  match readChunk s files chunkId with
  | none => some none
  | some (_, payload) =>
    if offset.toNat ≥ payload.length then some (some [])
    else
      let stop := min (offset + length) (UInt64.ofNat payload.length)
      (copyRange payload offset stop).map some

/-- The bytes that a range of a payload stands for. -/
def rangeOf (payload : Bytes) (offset length : UInt64) : Bytes :=
  (payload.drop offset.toNat).take length.toNat

/-- A payload that has been read has a size of 64 bits. -/
theorem length_of_readChunk {s : ChunkStore} {files : FileSystem} {chunkId : Str}
    {header : ChunkHeaderData} {payload : Bytes}
    (h : readChunk s files chunkId = some (header, payload)) : payload.length < 2 ^ 64 := by
  rw [readChunk] at h
  split at h
  · cases h
  · have hvalid := (serialize_of_deserialize h).1
    rw [← hvalid.size]
    exact header.size.toNat_lt

section Range

variable {payload : Bytes} {offset length : UInt64}

/-- A range that ends within 64 bits is cut at the end of the payload. -/
theorem copyRange_of_fits (hlength : payload.length < 2 ^ 64)
    (hoffset : offset.toNat < payload.length) (hfits : offset.toNat + length.toNat < 2 ^ 64) :
    copyRange payload offset (min (offset + length) (UInt64.ofNat payload.length)) =
      some (rangeOf payload offset length) := by
  have hsum : (offset + length).toNat = offset.toNat + length.toNat := by
    rw [UInt64.toNat_add]
    exact Nat.mod_eq_of_lt hfits
  have hsize : (UInt64.ofNat payload.length).toNat = payload.length :=
    UInt64.toNat_ofNat_of_lt' hlength
  have hstop : (min (offset + length) (UInt64.ofNat payload.length)).toNat =
      min (offset.toNat + length.toNat) payload.length := by
    rw [toNat_min, hsum, hsize]
  have horder : ¬ min (offset + length) (UInt64.ofNat payload.length) < offset := by
    rw [UInt64.lt_iff_toNat_lt, hstop]
    omega
  rw [copyRange, if_neg horder, hstop, rangeOf]
  -- the bytes that remain are fewer than the range, or as many
  have hrest : (payload.drop offset.toNat).length = payload.length - offset.toNat :=
    List.length_drop
  rcases Nat.le_total (offset.toNat + length.toNat) payload.length with hinside | hbeyond
  · rw [Nat.min_eq_left hinside, Nat.add_sub_cancel_left]
  · rw [Nat.min_eq_right hbeyond, List.take_of_length_le (by omega),
      List.take_of_length_le (by omega)]

/-- A range whose end wraps around ends before it begins. -/
theorem copyRange_of_wraps (hwraps : 2 ^ 64 ≤ offset.toNat + length.toNat) :
    copyRange payload offset (min (offset + length) (UInt64.ofNat payload.length)) = none := by
  have hoffset := offset.toNat_lt
  have hlength := length.toNat_lt
  have hsum : (offset + length).toNat < offset.toNat := by
    rw [UInt64.toNat_add]
    omega
  have horder : min (offset + length) (UInt64.ofNat payload.length) < offset := by
    rw [UInt64.lt_iff_toNat_lt, toNat_min]
    omega
  rw [copyRange, if_pos horder]

end Range

/-- A range read is the slice of the payload exactly when the range begins behind the
payload, or the sum of its offset and its length has 64 bits. -/
theorem readChunkRange_eq_iff {s : ChunkStore} {files : FileSystem} {chunkId : Str}
    {header : ChunkHeaderData} {payload : Bytes}
    (h : readChunk s files chunkId = some (header, payload)) (offset length : UInt64) :
    readChunkRange s files chunkId offset length = some (some (rangeOf payload offset length)) ↔
      payload.length ≤ offset.toNat ∨ offset.toNat + length.toNat < 2 ^ 64 := by
  rw [readChunkRange, h]
  dsimp only
  split
  · next hbehind =>
    have hempty : rangeOf payload offset length = [] := by
      rw [rangeOf, List.drop_eq_nil_of_le hbehind, List.take_nil]
    simp [hempty, hbehind]
  · next hinside =>
    have hoffset : offset.toNat < payload.length := Nat.lt_of_not_le hinside
    rcases Nat.lt_or_ge (offset.toNat + length.toNat) (2 ^ 64) with hfits | hwraps
    · rw [copyRange_of_fits (length_of_readChunk h) hoffset hfits]
      exact iff_of_true rfl (.inr hfits)
    · rw [copyRange_of_wraps hwraps]
      simp only [Option.map_none, reduceCtorEq, false_iff, not_or]
      omega

/-- A store with the chunk that has the bytes 1 and 2. -/
theorem exists_two_bytes : ∃ s files header,
    readChunk s files (str "c1") = some (header, [1, 2]) := by
  obtain ⟨header, -, -, hread⟩ := @exists_encoding (str "c1") (str "o") [1, 2] (by decide)
    (by decide) (by decide)
  refine ⟨{ basePath := str "/data" },
    (∅ : FileSystem).insert (chunkFilePath (str "/data") (str "c1")) (serialize header [1, 2]),
    header, ?_⟩
  rw [readChunk, Finmap.lookup_insert]
  exact hread

/-- The second byte is read, and a range of no bytes behind it. -/
theorem readChunkRange_eq_iff_two_bytes : ∃ s files,
    readChunkRange s files (str "c1") 1 1 = some (some [2]) ∧
      readChunkRange s files (str "c1") 2 18446744073709551615 = some (some []) := by
  obtain ⟨s, files, header, hread⟩ := exists_two_bytes
  refine ⟨s, files, ?_, ?_⟩
  · exact (readChunkRange_eq_iff hread 1 1).mpr (.inr (by decide))
  · exact (readChunkRange_eq_iff hread 2 18446744073709551615).mpr (.inl (by decide))

/-- Everything from the second byte on: the sum of offset and length is zero, and the read
ends with an exception. -/
theorem readChunkRange_wraps : ∃ s files header payload,
    readChunk s files (str "c1") = some (header, payload) ∧
      readChunkRange s files (str "c1") 1 18446744073709551615 = none ∧
      rangeOf payload 1 18446744073709551615 = [2] := by
  obtain ⟨s, files, header, hread⟩ := exists_two_bytes
  refine ⟨s, files, header, [1, 2], hread, ?_, rfl⟩
  rw [readChunkRange, hread]
  rfl

end StorageEngine.ChunkStore
