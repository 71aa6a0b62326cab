import Mathlib.Algebra.Order.Floor.Div
import StorageEngine.Client.Upload
import StorageEngine.Metadata.Plan

/-!
# The plan tiles the data

The metadata service plans the chunks, and the client cuts the data at their sizes with
an offset of its own.  `cuts` is where it cuts: the two positions of each slice, as `put`
computes them in 64 bits.  `putChunks_eq_uploads` says that the slices are all that the
loop of `put` takes from the data.
-/

namespace StorageEngine.StorageClient

open MetadataStore

/-- Where the loop of `put` cuts: `offset` and `offset + chunk_size` of each chunk. -/
def cuts : List ChunkMetadata → UInt64 → List (UInt64 × UInt64)
  | [], _ => []
  | chunkPb :: rest, offset =>
    (offset, offset + chunkPb.size) :: cuts rest (offset + chunkPb.size)

/-- The bytes that the loop of `put` cuts off, one slice for each chunk. -/
def slices (data : Bytes) (chunks : List ChunkMetadata) (offset : UInt64) : List Bytes :=
  (pieces data chunks offset).map Prod.snd

/-- The loop of `put` over chunks whose bytes are cut off already. -/
def uploads (cfg : ClusterConfig) (obj : ObjectMetadata) :
    List (ChunkMetadata × Bytes) → ClusterProg (Option Str)
  | [] => pure none
  | (chunkPb, chunkData) :: rest => do
    match ← putChunk cfg chunkData obj chunkPb 0 with
    | some message => return some message
    | none => uploads cfg obj rest

/-- A slice is all of itself. -/
theorem chunkDataOf_slice (data : Bytes) (offset size : UInt64) :
    chunkDataOf (chunkDataOf data offset size) 0 size = chunkDataOf data offset size := by
  rw [chunkDataOf_eq, chunkDataOf_eq, UInt64.toNat_zero, List.drop_zero, List.take_take,
    Nat.min_self]

/-- The loop of `put` uploads the slices, and looks at nothing else of the data. -/
theorem putChunks_eq_uploads (cfg : ClusterConfig) (data : Bytes) (obj : ObjectMetadata)
    (chunks : List ChunkMetadata) (offset : UInt64) :
    putChunks cfg data obj chunks offset =
      uploads cfg obj (chunks.zip (slices data chunks offset)) := by
  induction chunks generalizing offset with
  | nil => rfl
  | cons chunkPb chunks ih =>
    have hchunk : putChunk cfg data obj chunkPb offset =
        putChunk cfg (chunkDataOf data offset chunkPb.size) obj chunkPb 0 := by
      unfold putChunk
      rw [chunkDataOf_slice]
    have hrest := ih (offset + chunkPb.size)
    refine congr (congrArg Lib.Remote.Prog.bind hchunk) (funext fun r => ?_)
    cases r with
    | none => exact hrest
    | some message => rfl

/-- The cuts of chunks that fill the data from the offset on are in order and inside
it. -/
theorem cuts_inside {length : ℕ} (hlength : length < 2 ^ 64) {chunks : List ChunkMetadata}
    {offset : UInt64} (hsum : offset.toNat + totalSize chunks = length) :
    ∀ cut ∈ cuts chunks offset, cut.1 ≤ cut.2 ∧ cut.2.toNat ≤ length := by
  induction chunks generalizing offset with
  | nil => simp [cuts]
  | cons chunkPb chunks ih =>
    rw [totalSize_cons] at hsum
    have hoffset : (offset + chunkPb.size).toNat = offset.toNat + chunkPb.size.toNat := by
      rw [UInt64.toNat_add]
      exact Nat.mod_eq_of_lt (by omega)
    intro cut hcut
    rw [cuts, List.mem_cons] at hcut
    rcases hcut with hfirst | hlater
    · subst hfirst
      constructor
      · show offset ≤ offset + chunkPb.size
        rw [UInt64.le_iff_toNat_le, hoffset]
        omega
      · simp only [hoffset]
        omega
    · exact ih (by omega) cut hlater

/-- The number of chunks in the plan. -/
theorem planChunks_length {uuid : ℕ → Str} {objectId : Str} {size : UInt64}
    {chunkSizeBytes : UInt32} {chunks : List ChunkInfo} (hchunkSize : 0 < chunkSizeBytes)
    (h : planChunks uuid objectId size chunkSizeBytes = some chunks) :
    chunks.length = max 1 (size.toNat ⌈/⌉ chunkSizeBytes.toNat) := by
  have hpos : 0 < chunkSizeBytes.toNat := UInt32.lt_iff_toNat_lt.mp hchunkSize
  have hone : 1 ≤ chunks.length := List.length_pos_of_ne_nil (planChunks_spec h).1
  apply Nat.le_antisymm
  · rw [planChunks_length_le_iff h (Nat.le_max_left _ _), Nat.mul_comm,
      ← ceilDiv_le_iff_le_mul hpos]
    exact Nat.le_max_right _ _
  · apply Nat.max_le.mpr
    have hfits := (planChunks_length_le_iff h hone).mp (Nat.le_refl _)
    rw [Nat.mul_comm, ← ceilDiv_le_iff_le_mul hpos] at hfits
    exact ⟨hone, hfits⟩

/-- All chunks of the plan but the last have the chunk size. -/
theorem planChunks_full {uuid : ℕ → Str} {objectId : Str} {size : UInt64}
    {chunkSizeBytes : UInt32} {chunks : List ChunkInfo} (hchunkSize : 0 < chunkSizeBytes)
    (h : planChunks uuid objectId size chunkSizeBytes = some chunks) :
    ∀ c ∈ chunks.dropLast, c.size.toNat = chunkSizeBytes.toNat := by
  intro c hc
  rw [planChunks] at h
  split at h
  · cases h
    cases hc
  · have hne : chunkSizeBytes ≠ 0 := by
      intro hzero
      rw [hzero] at hchunkSize
      exact absurd hchunkSize (by decide)
    have hcut := planLoop_cutAt h hne
    apply hcut.full
    rw [← List.map_dropLast]
    exact List.mem_map_of_mem hc

/-- The plan tiles the object: the chunks are numbered and full up to the last one, their
sizes add up, and the slices that `put` cuts are the data in order. -/
theorem plan_tiles_data (uuid : ℕ → Str) (objectId : Str) (size : UInt64)
    {chunkSizeBytes : UInt32} (hchunkSize : 0 < chunkSizeBytes)
    (hsize : size.toNat ≤ 2 ^ 32 * chunkSizeBytes.toNat) :
    ∃ chunks, planChunks uuid objectId size chunkSizeBytes = some chunks ∧
      chunks.length = max 1 (size.toNat ⌈/⌉ chunkSizeBytes.toNat) ∧
      (∀ (i : ℕ) (c : ChunkInfo), chunks[i]? = some c → c.chunkIndex.toNat = i) ∧
      (∀ c ∈ chunks.dropLast, c.size.toNat = chunkSizeBytes.toNat) ∧
      (chunks.map fun c => c.size.toNat).sum = size.toNat ∧
      (∀ c ∈ chunks, c.objectId = objectId ∧ c.version = 1) ∧
      ∀ data : Bytes, data.length = size.toNat →
        (∀ cut ∈ cuts (chunks.map ChunkInfo.toProto) 0,
          cut.1 ≤ cut.2 ∧ cut.2.toNat ≤ data.length) ∧
        (slices data (chunks.map ChunkInfo.toProto) 0).flatten = data ∧
        ∀ cfg obj, putChunks cfg data obj (chunks.map ChunkInfo.toProto) 0 =
          uploads cfg obj ((chunks.map ChunkInfo.toProto).zip
            (slices data (chunks.map ChunkInfo.toProto) 0)) := by
  have hne : chunkSizeBytes ≠ 0 := by
    intro hzero
    rw [hzero] at hchunkSize
    exact absurd hchunkSize (by decide)
  obtain ⟨chunks, hplan⟩ := Option.isSome_iff_exists.mp
    ((planChunks_isSome_iff uuid objectId size chunkSizeBytes).mpr (.inr hne))
  obtain ⟨-, hplanned, hsum⟩ := planChunks_spec hplan
  refine ⟨chunks, hplan, planChunks_length hchunkSize hplan, ?_, planChunks_full hchunkSize hplan,
    hsum, ?_, ?_⟩
  · intro i c hc
    have hmany : chunks.length ≤ 2 ^ 32 :=
      (planChunks_length_le_iff hplan (by omega)).mpr hsize
    have hi : i < chunks.length := (List.getElem?_eq_some_iff.mp hc).1
    rw [(planChunks_index hplan hc).1]
    exact UInt32.toNat_ofNat_of_lt' (show i < 2 ^ 32 by omega)
  · intro c hc
    have hchunk := (hplanned c hc).1
    exact ⟨hchunk.objectId, hchunk.version⟩
  · intro data hdata
    have hlength : data.length < 2 ^ 64 := by
      rw [hdata]
      exact size.toNat_lt
    have htotal : (0 : UInt64).toNat + totalSize (chunks.map ChunkInfo.toProto) = data.length := by
      rw [hdata, ← hsum, totalSize, List.map_map, UInt64.toNat_zero, Nat.zero_add]
      rfl
    refine ⟨cuts_inside hlength htotal, ?_, ?_⟩
    · have hflat := pieces_flatten hlength htotal
      rw [UInt64.toNat_zero, List.drop_zero] at hflat
      exact hflat
    · intro cfg obj
      exact putChunks_eq_uploads cfg data obj _ 0

/-- Nine bytes at four bytes a chunk: the last chunk has one byte. -/
theorem plan_tiles_nine_bytes :
    ∃ chunks, planChunks (fun n => [UInt8.ofNat n]) (str "o") 9 4 = some chunks ∧
      chunks.length = 3 ∧
      (slices [1, 2, 3, 4, 5, 6, 7, 8, 9] (chunks.map ChunkInfo.toProto) 0).flatten =
        [1, 2, 3, 4, 5, 6, 7, 8, 9] := by
  obtain ⟨chunks, hplan, hlength, -, -, -, -, hdata⟩ :=
    @plan_tiles_data (fun n => [UInt8.ofNat n]) (str "o") 9 4 (by decide) (by decide)
  refine ⟨chunks, hplan, ?_, (hdata [1, 2, 3, 4, 5, 6, 7, 8, 9] rfl).2.1⟩
  rw [hlength]
  rfl

end StorageEngine.StorageClient
