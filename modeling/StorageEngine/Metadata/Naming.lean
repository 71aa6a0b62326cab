import StorageEngine.Metadata.Index
import StorageEngine.Metadata.Service

/-!
# Objects by name

`LocateObject` and `DeleteObject` look at the file name of a request only if it is not
empty, and `CreateObject` takes every name.  By the agreement of the two indexes, an
object is found and removed under its name, unless the name is empty.
-/

namespace StorageEngine.MetadataService

open MetadataStore

/-- The object is found under the name, and a deletion by the name removes it and nothing
else. -/
structure Addressable (s : MetadataStore) (filename : Str) (object : ObjectMetadata) : Prop where
  located : locateObject s { filename := filename } = { success := true, object := object }
  present : object.objectId ∈ s.objectsById
  deleted : deleteObject s { filename := filename } =
    ({ success := true, message := str "Deleted" },
      { s with
        objectsById := s.objectsById.erase object.objectId
        filenameToId := s.filenameToId.erase filename })

/-- Nothing is found under the empty name. -/
theorem locateObject_empty (s : MetadataStore) :
    (locateObject s { filename := [] }).success = false := rfl

/-- An object that is stored under its id, to which its name leads, can be addressed by the
name exactly when the name is not empty. -/
theorem indexed_addressable_iff {s : MetadataStore} {obj : ObjectInfo}
    (hobj : s.objectsById.lookup obj.objectId = some obj)
    (hindex : s.filenameToId.lookup obj.filename = some obj.objectId) :
    Addressable s obj.filename obj.toProto ↔ obj.filename ≠ [] := by
  constructor
  · intro haddressable hempty
    have hlocated := haddressable.located
    rw [hempty] at hlocated
    have hfailed := locateObject_empty s
    rw [hlocated] at hfailed
    cases hfailed
  · intro hname
    refine ⟨?_, Finmap.mem_of_lookup_eq_some hobj, ?_⟩
    · unfold locateObject
      simp only [ne_eq, not_true_eq_false, if_false, hname, not_false_eq_true, if_true,
        locateByFilename, hindex, hobj]
    · unfold deleteObject
      simp only [ne_eq, not_true_eq_false, if_false, hname, not_false_eq_true, if_true,
        deleteObjectByFilename, hindex, MetadataStore.deleteObject, hobj]
      rfl

/-- In every reachable store, whatever has happened since it was created, an object can be
addressed by its name exactly when the name is not empty. -/
theorem stored_addressable_iff {s : MetadataStore} (hreachable : Reachable s) {id : Str}
    {obj : ObjectInfo} (hobj : s.objectsById.lookup id = some obj) :
    Addressable s obj.filename obj.toProto ↔ obj.filename ≠ [] := by
  have hindexed := Indexed.of_reachable hreachable
  obtain rfl := hindexed.keyed hobj
  exact indexed_addressable_iff hobj (hindexed.inverse.indexed hobj)

/-- A creation that answers success has stored the object of its response, and the name of
the request leads to it. -/
theorem createObject_stored {cfg : ClusterConfig} {uuid : ℕ → Str} {now : TimestampMs}
    {s s' : MetadataStore} {req : CreateObjectRequest} {resp : CreateObjectResponse}
    (hcreate : createObject cfg uuid now s req = some (resp, s')) (hsuccess : resp.success) :
    ∃ obj, s'.objectsById.lookup obj.objectId = some obj ∧
      s'.filenameToId.lookup obj.filename = some obj.objectId ∧
      obj.filename = req.filename ∧ resp.object = obj.toProto := by
  rw [createObject] at hcreate
  split at hcreate
  · cases hcreate
  · cases hcreate
    cases hsuccess
  · next obj store heq =>
    cases hcreate
    obtain ⟨chunks, -, -, rfl, hstore⟩ := createObject_created heq
    rw [hstore]
    exact ⟨_, Finmap.lookup_insert _, Finmap.lookup_insert _, rfl, rfl⟩

/-- In every store, and for every id that is drawn, the object of a successful creation can
be addressed by its name exactly when the name is not empty. -/
theorem created_addressable_iff {cfg : ClusterConfig} {uuid : ℕ → Str} {now : TimestampMs}
    {s s' : MetadataStore} {req : CreateObjectRequest} {resp : CreateObjectResponse}
    (hcreate : createObject cfg uuid now s req = some (resp, s')) (hsuccess : resp.success) :
    Addressable s' req.filename resp.object ↔ req.filename ≠ [] := by
  obtain ⟨obj, hobj, hindex, hname, hobject⟩ := createObject_stored hcreate hsuccess
  rw [← hname, hobject]
  exact indexed_addressable_iff hobj hindex

/-- An object with a name of one byte. -/
theorem created_addressable_one_byte : ∃ resp s',
    createObject {} (fun n => [UInt8.ofNat n]) 7 {} { filename := [97] } = some (resp, s') ∧
      resp.success ∧ Addressable s' [97] resp.object := by
  refine ⟨_, _, rfl, rfl, ?_⟩
  exact (@created_addressable_iff {} (fun n => [UInt8.ofNat n]) 7 {} _ { filename := [97] } _
    rfl rfl).mpr (by decide)

/-- An object with the empty name: it is created, and not found under its name. -/
theorem created_not_addressable : ∃ resp s',
    createObject {} (fun n => [UInt8.ofNat n]) 7 {} { filename := [] } = some (resp, s') ∧
      resp.success ∧ ¬Addressable s' [] resp.object := by
  refine ⟨_, _, rfl, rfl, fun haddressable => ?_⟩
  have hlocated := congrArg LocateObjectResponse.success haddressable.located
  rw [locateObject_empty] at hlocated
  cases hlocated

end StorageEngine.MetadataService
