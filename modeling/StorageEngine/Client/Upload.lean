import StorageEngine.Client.StorageClient

/-!
# How an upload is cut

`put` walks over the chunks of the new object with a running offset.  `pieces`
is the list of what it uploads.  When the sizes of the chunks add up to the
length of the data, the pieces are the data, cut at the sums of the sizes.
-/

namespace StorageEngine.StorageClient

theorem chunkDataOf_eq (data : Bytes) (offset size : UInt64) :
    chunkDataOf data offset size = (data.drop offset.toNat).take size.toNat := by
  rw [chunkDataOf]
  split
  · rfl
  · next h =>
    have hzero : size.toNat = 0 := by
      rw [gt_iff_lt, UInt64.lt_iff_toNat_lt] at h
      exact Nat.le_zero.mp (Nat.le_of_not_lt h)
    rw [hzero, List.take_zero]

/-- The chunk ids and the bytes that the loop of `put` uploads. -/
def pieces (data : Bytes) : List ChunkMetadata → UInt64 → List (Str × Bytes)
  | [], _ => []
  | chunkPb :: rest, offset =>
    (chunkPb.chunkId, chunkDataOf data offset chunkPb.size) ::
      pieces data rest (offset + chunkPb.size)

/-- The sum of the sizes of chunks. -/
def totalSize (chunks : List ChunkMetadata) : ℕ :=
  (chunks.map fun c => c.size.toNat).sum

@[simp] theorem totalSize_nil : totalSize [] = 0 := rfl

@[simp] theorem totalSize_cons (c : ChunkMetadata) (chunks : List ChunkMetadata) :
    totalSize (c :: chunks) = c.size.toNat + totalSize chunks := by
  simp [totalSize]

@[simp] theorem pieces_ids (data : Bytes) (chunks : List ChunkMetadata) (offset : UInt64) :
    (pieces data chunks offset).map Prod.fst = chunks.map ChunkMetadata.chunkId := by
  induction chunks generalizing offset with
  | nil => rfl
  | cons c chunks ih => simp [pieces, ih]

/-- The pieces depend on the ids and the sizes of the chunks. -/
theorem pieces_congr {data : Bytes} {chunks chunks' : List ChunkMetadata} {offset : UInt64}
    (h : chunks.map (fun c => (c.chunkId, c.size)) = chunks'.map fun c => (c.chunkId, c.size)) :
    pieces data chunks offset = pieces data chunks' offset := by
  induction chunks generalizing chunks' offset with
  | nil => rw [List.map_eq_nil_iff.mp h.symm]
  | cons c chunks ih =>
    cases chunks' with
    | nil => cases h
    | cons c' chunks' =>
      rw [List.map_cons, List.map_cons, List.cons.injEq, Prod.mk.injEq] at h
      rw [pieces, pieces, h.1.1, h.1.2, ih h.2]

/-- Each chunk goes with its piece. -/
theorem forall₂_pieces {data : Bytes} {chunks : List ChunkMetadata} {offset : UInt64}
    {P : ChunkMetadata → Bytes → Prop}
    (h : ∀ c ∈ chunks, ∀ piece, (c.chunkId, piece) ∈ pieces data chunks offset → P c piece) :
    List.Forall₂ P chunks ((pieces data chunks offset).map Prod.snd) := by
  induction chunks generalizing offset with
  | nil => exact .nil
  | cons c chunks ih =>
    exact .cons (h c List.mem_cons_self _ List.mem_cons_self)
      (ih fun c' hc' piece hpiece =>
        h c' (List.mem_cons_of_mem _ hc') piece (List.mem_cons_of_mem _ hpiece))

private theorem toNat_offset {offset size : UInt64} {total length : ℕ}
    (hlength : length < 2 ^ 64) (hsum : offset.toNat + (size.toNat + total) = length) :
    (offset + size).toNat = offset.toNat + size.toNat := by
  rw [UInt64.toNat_add]
  exact Nat.mod_eq_of_lt (by omega)

/-- The pieces from an offset on are the data from there on. -/
theorem pieces_flatten {data : Bytes} (hlength : data.length < 2 ^ 64)
    {chunks : List ChunkMetadata} {offset : UInt64}
    (hsum : offset.toNat + totalSize chunks = data.length) :
    ((pieces data chunks offset).map Prod.snd).flatten = data.drop offset.toNat := by
  induction chunks generalizing offset with
  | nil =>
    rw [totalSize_nil, Nat.add_zero] at hsum
    rw [hsum, List.drop_length]
    rfl
  | cons c chunks ih =>
    rw [totalSize_cons] at hsum
    have hoffset := toNat_offset hlength hsum
    have hrest := ih (show (offset + c.size).toNat + totalSize chunks = data.length by omega)
    rw [pieces, List.map_cons, List.flatten_cons, hrest, hoffset, chunkDataOf_eq,
      ← List.drop_drop, List.take_append_drop]

/-- The `k`-th piece is the `k`-th chunk of the data. -/
theorem pieces_get {data : Bytes} (hlength : data.length < 2 ^ 64)
    {chunks : List ChunkMetadata} {offset : UInt64}
    (hsum : offset.toNat + totalSize chunks = data.length) {k : ℕ} {c : ChunkMetadata}
    (hk : chunks[k]? = some c) :
    (c.chunkId,
        (data.drop (offset.toNat + totalSize (chunks.take k))).take c.size.toNat) ∈
      pieces data chunks offset := by
  induction chunks generalizing offset k with
  | nil => cases hk
  | cons c' chunks ih =>
    rw [totalSize_cons] at hsum
    rw [pieces]
    cases k with
    | zero =>
      cases hk
      rw [List.take_zero, totalSize_nil, Nat.add_zero, ← chunkDataOf_eq]
      exact List.mem_cons_self
    | succ k =>
      have hoffset := toNat_offset hlength hsum
      have hmem := ih (show (offset + c'.size).toNat + totalSize chunks = data.length by omega) hk
      rw [hoffset] at hmem
      rw [List.take_succ_cons, totalSize_cons, ← Nat.add_assoc]
      exact List.mem_cons_of_mem _ hmem

end StorageEngine.StorageClient
