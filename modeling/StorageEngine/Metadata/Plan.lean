import Mathlib.Algebra.Order.BigOperators.Group.List
import StorageEngine.Metadata.Store

/-!
# The chunk plan of an object

What `plan_chunks` returns: chunks of the object without replicas, whose sizes
add up to its size.  And when it returns: always, except for a chunk size of
zero.
-/

namespace StorageEngine

/-- A chunk as `plan_chunks` leaves it. -/
structure ChunkInfo.Planned (objectId : Str) (c : ChunkInfo) : Prop where
  objectId : c.objectId = objectId
  checksum : c.checksum = []
  version : c.version = 1
  replicas : c.replicas = []

namespace MetadataStore

/-- One chunk takes its size from what remains. -/
private theorem toNat_remaining (remaining bound : UInt64) :
    (remaining - min remaining bound).toNat = remaining.toNat - (min remaining bound).toNat := by
  refine UInt64.toNat_sub_of_le _ _ (UInt64.le_iff_toNat_le.mpr ?_)
  rw [toNat_min]
  exact Nat.min_le_left _ _

theorem planLoop_zero (objectId : Str) (chunkSizeBytes : UInt32) (fuel : ℕ)
    (uuid : ℕ → Str) (index : UInt32) :
    planLoop objectId chunkSizeBytes fuel uuid index 0 = some [] := by
  cases fuel <;> simp [planLoop]

/-- A loop that plans chunks of zero bytes never ends. -/
theorem planLoop_zero_chunkSize (objectId : Str) (fuel : ℕ) (uuid : ℕ → Str)
    (index : UInt32) {remaining : UInt64} (hremaining : remaining ≠ 0) :
    planLoop objectId 0 fuel uuid index remaining = none := by
  induction fuel generalizing uuid index with
  | zero => simp [planLoop, hremaining]
  | succ fuel ih =>
    have hsize : min remaining (0 : UInt32).toUInt64 = 0 := by
      rw [← UInt64.toNat_inj, toNat_min]
      exact Nat.min_eq_right (Nat.zero_le _)
    rw [planLoop, if_neg hremaining]
    simp only [hsize, UInt64.sub_zero, ih, Option.map_none]

private theorem min_pos {remaining : UInt64} {chunkSizeBytes : UInt32}
    (hremaining : remaining ≠ 0) (hchunkSize : chunkSizeBytes ≠ 0) :
    0 < (min remaining chunkSizeBytes.toUInt64).toNat := by
  have hr : remaining.toNat ≠ 0 := fun h => hremaining (UInt64.toNat_inj.mp h)
  have hc : chunkSizeBytes.toNat ≠ 0 := fun h => hchunkSize (UInt32.toNat_inj.mp h)
  rw [toNat_min, UInt32.toNat_toUInt64]
  omega

/-- With a positive chunk size the loop ends within `remaining` turns. -/
theorem planLoop_isSome (objectId : Str) {chunkSizeBytes : UInt32}
    (hchunkSize : chunkSizeBytes ≠ 0) (fuel : ℕ) (uuid : ℕ → Str) (index : UInt32)
    {remaining : UInt64} (hfuel : remaining.toNat ≤ fuel) :
    (planLoop objectId chunkSizeBytes fuel uuid index remaining).isSome := by
  induction fuel generalizing uuid index remaining with
  | zero =>
    have hzero : remaining = 0 := UInt64.toNat_inj.mp (Nat.le_zero.mp hfuel)
    rw [hzero, planLoop_zero]
    rfl
  | succ fuel ih =>
    by_cases hremaining : remaining = 0
    · rw [hremaining, planLoop_zero]
      rfl
    · rw [planLoop, if_neg hremaining, Option.isSome_map]
      refine ih _ _ ?_
      have hpos := min_pos hremaining hchunkSize
      rw [toNat_remaining]
      omega

/-- The plan is made unless the object has bytes and the chunk size is zero. -/
theorem planChunks_isSome_iff (uuid : ℕ → Str) (objectId : Str) (size : UInt64)
    (chunkSizeBytes : UInt32) :
    (planChunks uuid objectId size chunkSizeBytes).isSome ↔
      size = 0 ∨ chunkSizeBytes ≠ 0 := by
  rw [planChunks]
  by_cases hsize : size = 0
  · simp [hsize]
  · rw [if_neg hsize]
    constructor
    · intro h
      refine .inr fun hchunkSize => ?_
      rw [hchunkSize, planLoop_zero_chunkSize _ _ _ _ hsize] at h
      cases h
    · rintro (h | h)
      · exact absurd h hsize
      · exact planLoop_isSome objectId h _ _ _ (Nat.le_refl _)

/-- What the loop plans. -/
theorem planLoop_spec {objectId : Str} {chunkSizeBytes : UInt32} {fuel : ℕ}
    {uuid : ℕ → Str} {index : UInt32} {remaining : UInt64} {chunks : List ChunkInfo}
    (h : planLoop objectId chunkSizeBytes fuel uuid index remaining = some chunks) :
    (∀ c ∈ chunks, c.Planned objectId ∧ ∃ n, c.chunkId = uuid n) ∧
      (chunks.map fun c => c.size.toNat).sum = remaining.toNat := by
  induction fuel generalizing uuid index remaining chunks with
  | zero =>
    rw [planLoop] at h
    split at h
    · next hremaining =>
      cases h
      simp [hremaining]
    · cases h
  | succ fuel ih =>
    rw [planLoop] at h
    split at h
    · next hremaining =>
      cases h
      simp [hremaining]
    · obtain ⟨rest, hrest, rfl⟩ := Option.map_eq_some_iff.mp h
      obtain ⟨hplanned, hsum⟩ := ih hrest
      refine ⟨fun c hc => ?_, ?_⟩
      · rcases List.mem_cons.mp hc with rfl | hc
        · exact ⟨⟨rfl, rfl, rfl, rfl⟩, 0, rfl⟩
        · obtain ⟨hc, n, hn⟩ := hplanned c hc
          exact ⟨hc, n + 1, hn⟩
      · rw [List.map_cons, List.sum_cons, hsum, toNat_remaining, toNat_min]
        omega

/-- The loop plans a chunk in each of its turns. -/
theorem planLoop_length_le {objectId : Str} {chunkSizeBytes : UInt32} {fuel : ℕ}
    {uuid : ℕ → Str} {index : UInt32} {remaining : UInt64} {chunks : List ChunkInfo}
    (h : planLoop objectId chunkSizeBytes fuel uuid index remaining = some chunks) :
    chunks.length ≤ fuel := by
  induction fuel generalizing uuid index remaining chunks with
  | zero =>
    rw [planLoop] at h
    split at h <;> simp_all
  | succ fuel ih =>
    rw [planLoop] at h
    split at h
    · cases h
      exact Nat.zero_le _
    · obtain ⟨rest, hrest, rfl⟩ := Option.map_eq_some_iff.mp h
      exact Nat.succ_le_succ (ih hrest)

theorem planChunks_length_le {uuid : ℕ → Str} {objectId : Str} {size : UInt64}
    {chunkSizeBytes : UInt32} {chunks : List ChunkInfo}
    (h : planChunks uuid objectId size chunkSizeBytes = some chunks) :
    chunks.length ≤ size.toNat + 1 := by
  rw [planChunks] at h
  split at h
  · cases h
    exact Nat.le_add_left _ _
  · exact (planLoop_length_le h).trans (Nat.le_succ _)

/-- The sizes of an object that is cut at `limit` bytes: no piece is empty or larger,
and only the last may be smaller. -/
structure CutAt (limit : ℕ) (sizes : List ℕ) : Prop where
  bounds : ∀ n ∈ sizes, 1 ≤ n ∧ n ≤ limit
  full : ∀ n ∈ sizes.dropLast, n = limit

theorem CutAt.nil (limit : ℕ) : CutAt limit [] where
  bounds _ hn := absurd hn List.not_mem_nil
  full _ hn := absurd hn List.not_mem_nil

/-- A piece in front of the others is a full one, and one without others need not be. -/
theorem CutAt.cons {limit n : ℕ} {sizes : List ℕ} (h : CutAt limit sizes)
    (hpos : 1 ≤ n) (hle : n ≤ limit) (hfull : sizes ≠ [] → n = limit) :
    CutAt limit (n :: sizes) where
  bounds m hm := by
    rcases List.mem_cons.mp hm with rfl | hm
    · exact ⟨hpos, hle⟩
    · exact h.bounds m hm
  full m hm := by
    by_cases hsizes : sizes = []
    · simp [hsizes] at hm
    · rw [List.dropLast_cons_of_ne_nil hsizes] at hm
      rcases List.mem_cons.mp hm with rfl | hm
      · exact hfull hsizes
      · exact h.full m hm

/-- Pieces cut at `limit` bytes are cut at a larger size too only if there is one
piece. -/
theorem CutAt.larger_iff {limit larger : ℕ} {sizes : List ℕ} (h : CutAt limit sizes)
    (hlt : limit < larger) : CutAt larger sizes ↔ sizes.sum ≤ limit := by
  match sizes with
  | [] => simp [CutAt.nil]
  | [n] =>
    have hn := h.bounds n List.mem_cons_self
    simp only [List.sum_cons, List.sum_nil, Nat.add_zero, hn.2, iff_true]
    exact (CutAt.nil larger).cons hn.1 (by omega) fun hnil => absurd rfl hnil
  | n :: m :: rest =>
    have hfirst : n ∈ (n :: m :: rest).dropLast := by simp
    have hfull := h.full n hfirst
    constructor
    · intro hlarger
      have hcontra := hlarger.full n hfirst
      omega
    · intro hsum
      have hpos := (h.bounds m (by simp)).1
      simp only [List.sum_cons] at hsum
      omega

/-- Pieces up to `n` hold up to `n` times the limit. -/
theorem CutAt.length_le_iff {limit n : ℕ} {sizes : List ℕ} (h : CutAt limit sizes) :
    sizes.length ≤ n ↔ sizes.sum ≤ n * limit := by
  constructor
  · intro hlength
    calc sizes.sum ≤ sizes.length • limit :=
          List.sum_le_card_nsmul _ _ fun m hm => (h.bounds m hm).2
      _ ≤ n * limit := Nat.mul_le_mul_right limit hlength
  · intro hsum
    by_contra hlength
    have hnonempty : sizes ≠ [] := by
      rintro rfl
      exact hlength (Nat.zero_le n)
    -- all pieces but the last fill the bound, and the last is not empty
    have hfull : sizes.dropLast = List.replicate (sizes.length - 1) limit := by
      rw [List.eq_replicate_iff, List.length_dropLast]
      exact ⟨rfl, h.full⟩
    have hlast := (h.bounds _ (List.getLast_mem hnonempty)).1
    have htotal := congrArg List.sum (List.dropLast_append_getLast hnonempty)
    rw [List.sum_append, hfull, List.sum_replicate, List.sum_singleton] at htotal
    have hmany : n * limit ≤ (sizes.length - 1) * limit :=
      Nat.mul_le_mul_right limit (by omega)
    change (sizes.length - 1) * limit + _ = _ at htotal
    omega

/-- The loop numbers the chunks, with a counter of 32 bits, and draws their ids in order. -/
theorem planLoop_index {objectId : Str} {chunkSizeBytes : UInt32} {fuel : ℕ}
    {uuid : ℕ → Str} {index : UInt32} {remaining : UInt64} {chunks : List ChunkInfo}
    (h : planLoop objectId chunkSizeBytes fuel uuid index remaining = some chunks) {i : ℕ}
    {c : ChunkInfo} (hc : chunks[i]? = some c) :
    c.chunkIndex = index + UInt32.ofNat i ∧ c.chunkId = uuid i := by
  induction fuel generalizing uuid index remaining chunks i with
  | zero =>
    rw [planLoop] at h
    split at h
    · cases h
      simp at hc
    · cases h
  | succ fuel ih =>
    rw [planLoop] at h
    split at h
    · cases h
      simp at hc
    · obtain ⟨rest, hrest, rfl⟩ := Option.map_eq_some_iff.mp h
      cases i with
      | zero =>
        cases hc
        exact ⟨(UInt32.add_zero index).symm, rfl⟩
      | succ i =>
        rw [List.getElem?_cons_succ] at hc
        obtain ⟨hindex, hid⟩ := ih hrest hc
        refine ⟨?_, hid⟩
        rw [hindex, UInt32.ofNat_add, UInt32.add_assoc, UInt32.add_comm 1]
        rfl

/-- The loop cuts at the chunk size. -/
theorem planLoop_cutAt {objectId : Str} {chunkSizeBytes : UInt32} {fuel : ℕ}
    {uuid : ℕ → Str} {index : UInt32} {remaining : UInt64} {chunks : List ChunkInfo}
    (h : planLoop objectId chunkSizeBytes fuel uuid index remaining = some chunks)
    (hchunkSize : chunkSizeBytes ≠ 0) :
    CutAt chunkSizeBytes.toNat (chunks.map fun c => c.size.toNat) := by
  induction fuel generalizing uuid index remaining chunks with
  | zero =>
    rw [planLoop] at h
    split at h
    · cases h
      exact CutAt.nil _
    · cases h
  | succ fuel ih =>
    rw [planLoop] at h
    split at h
    · cases h
      exact CutAt.nil _
    · next hremaining =>
      obtain ⟨rest, hrest, rfl⟩ := Option.map_eq_some_iff.mp h
      have hpos := min_pos hremaining hchunkSize
      have hsum := (planLoop_spec hrest).2
      have hmin := toNat_min remaining chunkSizeBytes.toUInt64
      rw [UInt32.toNat_toUInt64] at hmin
      rw [toNat_remaining] at hsum
      simp only [List.map_cons]
      refine (ih hrest).cons hpos (by omega) ?_
      intro hnonempty
      -- more chunks follow, so this one did not take all that remained
      by_contra hsmall
      refine hnonempty ?_
      have hzero : remaining - min remaining chunkSizeBytes.toUInt64 = 0 := by
        rw [← UInt64.toNat_inj, toNat_remaining]
        simp only [UInt64.toNat_zero]
        omega
      rw [hzero, planLoop_zero] at hrest
      cases hrest
      rfl

/-- What `plan_chunks` returns. -/
theorem planChunks_spec {uuid : ℕ → Str} {objectId : Str} {size : UInt64}
    {chunkSizeBytes : UInt32} {chunks : List ChunkInfo}
    (h : planChunks uuid objectId size chunkSizeBytes = some chunks) :
    chunks ≠ [] ∧ (∀ c ∈ chunks, c.Planned objectId ∧ ∃ n, c.chunkId = uuid n) ∧
      (chunks.map fun c => c.size.toNat).sum = size.toNat := by
  rw [planChunks] at h
  split at h
  · next hsize =>
    cases h
    refine ⟨by simp, fun c hc => ?_, by simp [hsize]⟩
    rw [List.mem_singleton.mp hc]
    exact ⟨⟨rfl, rfl, rfl, rfl⟩, 0, rfl⟩
  · next hsize =>
    obtain ⟨hplanned, hsum⟩ := planLoop_spec h
    refine ⟨?_, hplanned, hsum⟩
    rintro rfl
    exact hsize (UInt64.toNat_inj.mp hsum.symm)

theorem planChunks_index {uuid : ℕ → Str} {objectId : Str} {size : UInt64}
    {chunkSizeBytes : UInt32} {chunks : List ChunkInfo}
    (h : planChunks uuid objectId size chunkSizeBytes = some chunks) {i : ℕ} {c : ChunkInfo}
    (hc : chunks[i]? = some c) : c.chunkIndex = UInt32.ofNat i ∧ c.chunkId = uuid i := by
  rw [planChunks] at h
  split at h
  · cases h
    cases i with
    | zero =>
      cases hc
      exact ⟨rfl, rfl⟩
    | succ i => simp at hc
  · obtain ⟨hindex, hid⟩ := planLoop_index h hc
    rw [UInt32.zero_add] at hindex
    exact ⟨hindex, hid⟩

/-- How many chunks are planned. -/
theorem planChunks_length_le_iff {uuid : ℕ → Str} {objectId : Str} {size : UInt64}
    {chunkSizeBytes : UInt32} {chunks : List ChunkInfo}
    (h : planChunks uuid objectId size chunkSizeBytes = some chunks) {n : ℕ} (hn : 1 ≤ n) :
    chunks.length ≤ n ↔ size.toNat ≤ n * chunkSizeBytes.toNat := by
  have hdone := (planChunks_isSome_iff uuid objectId size chunkSizeBytes).mp (by rw [h]; rfl)
  have hsum := (planChunks_spec h).2.2
  rw [planChunks] at h
  split at h
  · next hsize =>
    cases h
    simp [hsize, hn]
  · next hsize =>
    have hcut := planLoop_cutAt h (hdone.resolve_left hsize)
    rw [← hsum, ← hcut.length_le_iff, List.length_map]

end MetadataStore

end StorageEngine
