import StorageEngine.Metadata.Index
import StorageEngine.Metadata.Plan
import StorageEngine.Metadata.Service

/-!
# The chunk size of a creation

`CreateObject` multiplies the chunk size of the request, in mebibytes, by
`1024U * 1024U`.  The product has 32 bits, so from 4096 mebibytes on the plan is
cut at another size than the one asked for, and at none at all for a multiple of
4096.
-/

namespace StorageEngine

namespace MetadataStore

/-- The plan is not made exactly when the loop does not end, however many turns it
has. -/
theorem planChunks_eq_none_iff (uuid : ℕ → Str) (objectId : Str) (size : UInt64)
    (chunkSizeBytes : UInt32) :
    planChunks uuid objectId size chunkSizeBytes = none ↔
      ∀ fuel, planLoop objectId chunkSizeBytes fuel uuid 0 size = none := by
  constructor
  · intro h fuel
    have hundone := planChunks_isSome_iff uuid objectId size chunkSizeBytes
    rw [h] at hundone
    by_cases hsize : size = 0
    · simp [hsize] at hundone
    · have hzero : chunkSizeBytes = 0 := by
        by_contra hchunkSize
        simp [hchunkSize] at hundone
      rw [hzero]
      exact planLoop_zero_chunkSize objectId fuel uuid 0 hsize
  · intro h
    have hsize : size ≠ 0 := by
      intro hsize
      have hdone := h 0
      rw [hsize, planLoop_zero] at hdone
      cases hdone
    rw [planChunks, if_neg hsize]
    exact h size.toNat

end MetadataStore

namespace MetadataService

open MetadataStore

/-- `chunk_size_mb` of `CreateObject`: that of the request, else the configured one. -/
def chunkSizeMb (cfg : ClusterConfig) (req : CreateObjectRequest) : UInt32 :=
  if req.chunkSizeMb > 0 then req.chunkSizeMb else cfg.chunkSizeMb

/-- The creation returns, and a non-empty object that it creates is cut at the chunk
size asked for. -/
def PlansAsAsked (cfg : ClusterConfig) (uuid : ℕ → Str) (now : TimestampMs)
    (s : MetadataStore) (req : CreateObjectRequest) : Prop :=
  ∃ resp s', createObject cfg uuid now s req = some (resp, s') ∧
    (resp.success → req.size ≠ 0 →
      CutAt ((chunkSizeMb cfg req).toNat * 2 ^ 20)
        (resp.object.chunks.map fun c => c.size.toNat))

/-- Of the chunk size in mebibytes, the 32-bit product keeps the last twelve bits. -/
theorem toNat_chunkSizeBytes (mb : UInt32) :
    (mb * 1024 * 1024).toNat = mb.toNat % 4096 * 2 ^ 20 := by
  rw [UInt32.toNat_mul, UInt32.toNat_mul]
  have h1024 : (1024 : UInt32).toNat = 1024 := rfl
  rw [h1024]
  omega

/-- A creation under a free name makes the plan, and returns when that does. -/
theorem createObject_of_free (cfg : ClusterConfig) (uuid : ℕ → Str) (now : TimestampMs)
    {s : MetadataStore} {req : CreateObjectRequest} (hfree : req.filename ∉ s.filenameToId) :
    (∃ chunks resp s', planChunks (fun n => uuid (n + 1)) (uuid 0) req.size
        (chunkSizeMb cfg req * 1024 * 1024) = some chunks ∧
      createObject cfg uuid now s req = some (resp, s') ∧
      resp.success ∧ resp.object.chunks = chunks.map ChunkInfo.toProto) ∨
    (planChunks (fun n => uuid (n + 1)) (uuid 0) req.size
        (chunkSizeMb cfg req * 1024 * 1024) = none ∧
      createObject cfg uuid now s req = none) := by
  unfold createObject chunkSizeMb MetadataStore.createObject
  cases hplan : planChunks (fun n => uuid (n + 1)) (uuid 0) req.size
      ((if req.chunkSizeMb > 0 then req.chunkSizeMb else cfg.chunkSizeMb) * 1024 * 1024) with
  | none =>
    right
    dsimp only
    rw [if_neg hfree, hplan]
    exact ⟨rfl, rfl⟩
  | some chunks =>
    left
    dsimp only
    rw [if_neg hfree, hplan]
    exact ⟨chunks, _, _, rfl, rfl, rfl, rfl⟩

/-- What a creation under a free name is asked to do, in terms of its plan. -/
theorem plansAsAsked_of_free (cfg : ClusterConfig) (uuid : ℕ → Str) (now : TimestampMs)
    {s : MetadataStore} {req : CreateObjectRequest} (hfree : req.filename ∉ s.filenameToId) :
    PlansAsAsked cfg uuid now s req ↔
      ∃ chunks, planChunks (fun n => uuid (n + 1)) (uuid 0) req.size
          (chunkSizeMb cfg req * 1024 * 1024) = some chunks ∧
        (req.size ≠ 0 → CutAt ((chunkSizeMb cfg req).toNat * 2 ^ 20)
          (chunks.map fun c => c.size.toNat)) := by
  rcases createObject_of_free cfg uuid now hfree with
    ⟨chunks, resp, s', hplan, hcreate, hsuccess, hchunks⟩ | ⟨hplan, hcreate⟩
  · simp only [PlansAsAsked, hcreate, hplan, Option.some.injEq, Prod.mk.injEq]
    have hsizes : (resp.object.chunks.map fun c => c.size.toNat) =
        chunks.map fun c => c.size.toNat := by
      rw [hchunks, List.map_map]
      rfl
    constructor
    · intro h
      obtain ⟨resp', s'', ⟨rfl, -⟩, hcut⟩ := h
      rw [hsizes] at hcut
      exact ⟨chunks, rfl, hcut hsuccess⟩
    · intro h
      obtain ⟨chunks', rfl, hcut⟩ := h
      rw [← hsizes] at hcut
      exact ⟨resp, s', ⟨rfl, rfl⟩, fun _ => hcut⟩
  · simp [PlansAsAsked, hcreate, hplan]

/-- A creation returns and cuts the object as asked exactly when it is refused, or the
object is empty, or the 32-bit product is not zero and either has not wrapped or gives a
chunk that takes the whole object. -/
theorem plansAsAsked_iff (cfg : ClusterConfig) (uuid : ℕ → Str) (now : TimestampMs)
    (s : MetadataStore) (req : CreateObjectRequest) :
    PlansAsAsked cfg uuid now s req ↔
      req.filename ∈ s.filenameToId ∨ req.size = 0 ∨
        (chunkSizeMb cfg req).toNat % 4096 ≠ 0 ∧
          ((chunkSizeMb cfg req).toNat < 4096 ∨
            req.size.toNat ≤ (chunkSizeMb cfg req).toNat % 4096 * 2 ^ 20) := by
  by_cases hname : req.filename ∈ s.filenameToId
  · simp [PlansAsAsked, createObject, MetadataStore.createObject, hname]
  rw [plansAsAsked_of_free cfg uuid now hname]
  by_cases hsize : req.size = 0
  · simp [hname, hsize, planChunks]
  simp only [hname, hsize, false_or, ne_eq, not_false_eq_true, forall_const]
  have hproduct := toNat_chunkSizeBytes (chunkSizeMb cfg req)
  by_cases hzero : (chunkSizeMb cfg req).toNat % 4096 = 0
  · have hchunkSize : chunkSizeMb cfg req * 1024 * 1024 = 0 := by
      rw [← UInt32.toNat_inj, hproduct, hzero]
      rfl
    simp [hzero, hchunkSize, planChunks, hsize, planLoop_zero_chunkSize]
  · have hchunkSize : chunkSizeMb cfg req * 1024 * 1024 ≠ 0 := by
      intro h
      rw [h, UInt32.toNat_zero] at hproduct
      omega
    obtain ⟨chunks, hplan⟩ := Option.isSome_iff_exists.mp
      ((planChunks_isSome_iff (fun n => uuid (n + 1)) (uuid 0) req.size _).mpr (.inr hchunkSize))
    have hsum := (planChunks_spec hplan).2.2
    have hloop := hplan
    rw [planChunks, if_neg hsize] at hloop
    have hcut := planLoop_cutAt hloop hchunkSize
    rw [hproduct] at hcut
    simp only [hplan, Option.some.injEq, exists_eq_left', hzero, not_false_eq_true, true_and]
    by_cases hwrapped : (chunkSizeMb cfg req).toNat < 4096
    · rw [Nat.mod_eq_of_lt hwrapped] at hcut
      simp only [hcut, hwrapped, true_or]
    · have hmod := Nat.mod_lt (chunkSizeMb cfg req).toNat (by decide : 4096 > 0)
      rw [hcut.larger_iff (by omega), hsum]
      simp only [hwrapped, false_or]

/-- One byte in chunks of 4096 mebibytes: the product is zero, and the loop does not end,
however many turns it has. -/
theorem four_gib_chunks_not_planned :
    ¬ PlansAsAsked {} (fun _ => generateUuid 0 0) 0 {}
        { filename := str "f", size := 1, chunkSizeMb := 4096 } ∧
      ∀ fuel, planLoop (generateUuid 0 0) (4096 * 1024 * 1024) fuel
        (fun _ => generateUuid 0 0) 0 1 = none := by
  have hundone : planChunks (fun _ => generateUuid 0 0) (generateUuid 0 0) 1
      (4096 * 1024 * 1024) = none := by decide
  constructor
  · intro h
    obtain ⟨chunks, hplan, -⟩ := (plansAsAsked_of_free {} (fun _ => generateUuid 0 0) 0
      (by decide)).mp h
    exact absurd (hundone.symm.trans hplan) (by simp)
  · exact (planChunks_eq_none_iff _ _ _ _).mp hundone

end MetadataService

end StorageEngine
