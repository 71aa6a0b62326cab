import StorageEngine.Lib.Remote
import StorageEngine.Metadata.Listing

/-!
# The listing of the client

`StorageClient::list` asks for one page of 10000 objects and never for a second one.  Its
result is complete exactly when there are no more objects than that.
-/

namespace StorageEngine

open Lib.Remote

namespace MetadataStore

/-- The ids of the objects whose names start with the prefix. -/
def listedIds (s : MetadataStore) (namePrefix : Str) : Finset Str :=
  s.objectsById.keys.filter fun id =>
    ∃ obj, s.objectsById.lookup id = some obj ∧ namePrefix <+: obj.filename

theorem mem_listedIds {s : MetadataStore} {namePrefix id : Str} :
    id ∈ s.listedIds namePrefix ↔
      ∃ obj, s.objectsById.lookup id = some obj ∧ namePrefix <+: obj.filename := by
  rw [listedIds, Finset.mem_filter, Finmap.mem_keys]
  refine ⟨And.right, fun h => ⟨?_, h⟩⟩
  obtain ⟨obj, hobj, -⟩ := h
  exact Finmap.mem_of_lookup_eq_some hobj

/-- A listing is as long as there are objects. -/
theorem listing_length {s : MetadataStore} (hindexed : Indexed s) {namePrefix : Str}
    {all : List ObjectInfo}
    (hmem : ∀ obj, obj ∈ all ↔
      (∃ id, s.objectsById.lookup id = some obj) ∧ namePrefix <+: obj.filename)
    (hnodup : all.Nodup) : all.length = (s.listedIds namePrefix).card := by
  have hids : (all.map ObjectInfo.objectId).Nodup := by
    apply List.Nodup.map_on _ hnodup
    intro a ha b hb hid
    obtain ⟨⟨id, hida⟩, -⟩ := (hmem a).mp ha
    obtain ⟨⟨id', hidb⟩, -⟩ := (hmem b).mp hb
    rw [← hindexed.keyed hida, hid, hindexed.keyed hidb, hidb] at hida
    exact (Option.some.inj hida).symm
  have hsame : (all.map ObjectInfo.objectId).toFinset = s.listedIds namePrefix := by
    ext id
    rw [List.mem_toFinset, List.mem_map, mem_listedIds]
    constructor
    · intro h
      obtain ⟨obj, hobj, rfl⟩ := h
      obtain ⟨⟨id, hid⟩, hprefix⟩ := (hmem obj).mp hobj
      rw [hindexed.keyed hid]
      exact ⟨obj, hid, hprefix⟩
    · intro h
      obtain ⟨obj, hobj, hprefix⟩ := h
      exact ⟨obj, (hmem obj).mpr ⟨⟨id, hobj⟩, hprefix⟩, hindexed.keyed hobj⟩
  rw [← hsame, List.toFinset_card_of_nodup hids, List.length_map]

end MetadataStore

namespace StorageClient

open MetadataStore

/-- The fields of an object that `list` passes on. -/
def listedInfo (obj : ObjectMetadata) : ObjectInfo :=
  { objectId := obj.objectId
    filename := obj.filename
    size := obj.size
    replicationFactor := obj.replicationFactor
    version := obj.version
    owner := obj.owner
    createdAt := obj.createdAtMs
    updatedAt := obj.updatedAtMs }

/-- `list`.  Its only call is `ListObjects`. -/
def list (namePrefix : Str) :
    Prog ListObjectsRequest (fun _ => ListObjectsResponse) (List ObjectInfo) := do
  match ← Prog.rpc { namePrefix := namePrefix, limit := 10000 } with
  | none => return []
  | some resp => return resp.objects.map listedInfo

/-- The metadata service answers `ListObjects` in any order in which it can meet the
objects. -/
inductive ServesListing (sort : List ObjectInfo → List ObjectInfo) :
    (req : ListObjectsRequest) → MetadataStore → Option ListObjectsResponse → MetadataStore →
      Prop where
  | listObjects {s : MetadataStore} {req : ListObjectsRequest} {visited : List ObjectInfo}
      (hvisited : s.VisitsObjects visited) :
      ServesListing sort req s (some (MetadataService.listObjects sort visited req)) s

/-- The result has every object with the prefix, and each once. -/
structure Complete (s : MetadataStore) (namePrefix : Str) (result : List ObjectInfo) : Prop where
  listed : ∀ info, info ∈ result ↔ ∃ id obj, s.objectsById.lookup id = some obj ∧
    namePrefix <+: obj.filename ∧ info = listedInfo obj.toProto
  once : (result.map ObjectInfo.filename).Nodup

/-- An answered `list` returns the first 10000 objects of the listing. -/
theorem list_answered {s s' : MetadataStore} (hindexed : Indexed s)
    {sort : List ObjectInfo → List ObjectInfo} (hsort : SortsByFilename sort) {namePrefix : Str}
    {trace : List (Event ListObjectsRequest fun _ => ListObjectsResponse)}
    {result : List ObjectInfo}
    (hrun : Runs (ServesListing sort) (list namePrefix) s trace result s')
    (hanswered : ∀ e ∈ trace, e.fate = .answered) :
    ∃ all : List ObjectInfo,
      (∀ obj, obj ∈ all ↔
        (∃ id, s.objectsById.lookup id = some obj) ∧ namePrefix <+: obj.filename) ∧
      all.Pairwise Before ∧
      result = (all.take 10000).map fun obj => listedInfo obj.toProto := by
  obtain ⟨fate, r, s₁, rest, hcall, hrest, rfl⟩ := runs_rpc.mp hrun
  obtain rfl : fate = .answered := hanswered _ List.mem_cons_self
  obtain ⟨all, hmem, hordered, hpages⟩ := MetadataService.listObjects_pages hindexed hsort
    { namePrefix := namePrefix, limit := 10000 }
  refine ⟨all, hmem, hordered, ?_⟩
  cases hcall.served with
  | listObjects hvisited =>
    obtain ⟨-, rfl, -⟩ := runs_done.mp hrest
    have hpage := hpages _ hvisited 0
    dsimp only at hpage ⊢
    rw [hpage, List.map_map]
    rfl

/-- A complete result is as long as there are objects. -/
theorem Complete.card_le {s : MetadataStore} {namePrefix : Str} {result : List ObjectInfo}
    (h : Complete s namePrefix result) (hindexed : Indexed s) :
    (s.listedIds namePrefix).card ≤ result.length := by
  have hsub : s.listedIds namePrefix ⊆ (result.map ObjectInfo.objectId).toFinset := by
    intro id hid
    obtain ⟨obj, hobj, hprefix⟩ := mem_listedIds.mp hid
    have hlisted := (h.listed _).mpr ⟨id, obj, hobj, hprefix, rfl⟩
    rw [List.mem_toFinset, ← hindexed.keyed hobj]
    exact List.mem_map.mpr ⟨_, hlisted, rfl⟩
  calc (s.listedIds namePrefix).card
      ≤ (result.map ObjectInfo.objectId).toFinset.card := Finset.card_le_card hsub
    _ ≤ (result.map ObjectInfo.objectId).length := List.toFinset_card_le _
    _ = result.length := List.length_map _

/-- The result of `list` is complete exactly when there are at most 10000 objects with the
prefix. -/
theorem list_complete_iff {s s' : MetadataStore} (hreachable : Reachable s)
    {sort : List ObjectInfo → List ObjectInfo} (hsort : SortsByFilename sort) {namePrefix : Str}
    {trace : List (Event ListObjectsRequest fun _ => ListObjectsResponse)}
    {result : List ObjectInfo}
    (hrun : Runs (ServesListing sort) (list namePrefix) s trace result s')
    (hanswered : ∀ e ∈ trace, e.fate = .answered) :
    Complete s namePrefix result ↔ (s.listedIds namePrefix).card ≤ 10000 := by
  have hindexed := Indexed.of_reachable hreachable
  obtain ⟨all, hmem, hordered, rfl⟩ := list_answered hindexed hsort hrun hanswered
  have hnames : (all.map ObjectInfo.filename).Nodup := by
    rw [List.nodup_iff_pairwise_ne, List.pairwise_map]
    apply hordered.imp
    intro a b hab hsame
    rw [Before, hsame] at hab
    exact List.lt_irrefl _ hab
  have hnodup : all.Nodup := .of_map _ hnames
  have hfilenames : ∀ objs : List ObjectInfo,
      (objs.map fun obj => listedInfo obj.toProto).map ObjectInfo.filename =
        objs.map ObjectInfo.filename := by
    intro objs
    rw [List.map_map]
    rfl
  constructor
  · intro hcomplete
    have hlength := hcomplete.card_le hindexed
    rw [List.length_map, List.length_take] at hlength
    omega
  · intro hle
    rw [← listing_length hindexed hmem hnodup] at hle
    rw [List.take_of_length_le hle]
    refine ⟨fun info => ?_, ?_⟩
    · rw [List.mem_map]
      constructor
      · intro h
        obtain ⟨obj, hobj, rfl⟩ := h
        obtain ⟨⟨id, hid⟩, hprefix⟩ := (hmem obj).mp hobj
        exact ⟨id, obj, hid, hprefix, rfl⟩
      · intro h
        obtain ⟨id, obj, hid, hprefix, rfl⟩ := h
        exact ⟨obj, (hmem obj).mpr ⟨⟨id, hid⟩, hprefix⟩, rfl⟩
    · rw [hfilenames]
      exact hnames

/-! ## Stores of any size -/

/-- The name of the `n`-th of many objects, which is also its id. -/
def manyName (n : ℕ) : Str := List.replicate n 97

theorem manyName_inj {m n : ℕ} (h : manyName m = manyName n) : m = n := by
  have hlength := congrArg List.length h
  simpa [manyName] using hlength

/-- Any number of objects can be stored. -/
theorem exists_many_objects (n : ℕ) : ∃ s, Reachable s ∧ (s.listedIds []).card = n ∧
    (∀ id ∈ s.objectsById, ∃ k < n, id = manyName k) ∧
    ∀ name ∈ s.filenameToId, ∃ k < n, name = manyName k := by
  induction n with
  | zero => exact ⟨{}, .refl, rfl, fun id h => absurd h Finmap.notMem_empty,
      fun name h => absurd h Finmap.notMem_empty⟩
  | succ n ih =>
    obtain ⟨s, hreachable, hcard, hids, hnames⟩ := ih
    have hfresh : manyName n ∉ s.objectsById := by
      intro h
      obtain ⟨k, hk, hsame⟩ := hids _ h
      have hn := manyName_inj hsame
      omega
    have hname : manyName n ∉ s.filenameToId := by
      intro h
      obtain ⟨k, hk, hsame⟩ := hnames _ h
      have hn := manyName_inj hsame
      omega
    let obj := newObject (fun _ => manyName n) 1 (manyName n) 0 1 (str "default")
      [{ chunkId := manyName n, objectId := manyName n, version := 1 }]
    let s' : MetadataStore :=
      { s with
        objectsById := s.objectsById.insert (manyName n) obj
        filenameToId := s.filenameToId.insert (manyName n) (manyName n) }
    have hcreate : createObject (fun _ => manyName n) 1 s (manyName n) 0 1 (str "default") 1 =
        some (some obj, s') := by
      rw [createObject, if_neg hname]
      rfl
    have hmem : ∀ (s : MetadataStore) (id : Str), id ∈ s.listedIds [] ↔ id ∈ s.objectsById := by
      intro s id
      rw [mem_listedIds, Finmap.mem_iff]
      simp
    have hlisted : s'.listedIds [] = insert (manyName n) (s.listedIds []) := by
      ext id
      rw [Finset.mem_insert, hmem, hmem]
      exact Finmap.mem_insert
    refine ⟨s', hreachable.tail (.create _ _ _ _ _ _ _ _ hfresh hcreate), ?_, ?_, ?_⟩
    · rw [hlisted, Finset.card_insert_of_notMem (by rwa [hmem]), hcard]
    · intro id hid
      rcases Finmap.mem_insert.mp hid with rfl | hid
      · exact ⟨n, by omega, rfl⟩
      · obtain ⟨k, hk, hsame⟩ := hids id hid
        exact ⟨k, by omega, hsame⟩
    · intro name hin
      rcases Finmap.mem_insert.mp hin with rfl | hin
      · exact ⟨n, by omega, rfl⟩
      · obtain ⟨k, hk, hsame⟩ := hnames name hin
        exact ⟨k, by omega, hsame⟩

/-- `list` has a run with an answer on every store. -/
theorem list_runs (s : MetadataStore) (sort : List ObjectInfo → List ObjectInfo)
    (namePrefix : Str) : ∃ trace result,
      Runs (ServesListing sort) (list namePrefix) s trace result s ∧
        ∀ e ∈ trace, e.fate = .answered := by
  obtain ⟨visited, hvisited⟩ := exists_visitsObjects s
  refine ⟨_, _, .call (.answered (.listObjects hvisited)) (.done _ _), ?_⟩
  simp

/-- A store with one object is listed completely. -/
theorem list_complete_one_object : ∃ s trace result,
    (s.listedIds []).card = 1 ∧
      Runs (ServesListing sortByFilename) (list []) s trace result s ∧ Complete s [] result := by
  obtain ⟨s, hreachable, hcard, -⟩ := exists_many_objects 1
  obtain ⟨trace, result, hrun, hanswered⟩ := list_runs s sortByFilename []
  refine ⟨s, trace, result, hcard, hrun, ?_⟩
  exact (list_complete_iff hreachable sortByFilename_sorts hrun hanswered).mpr (by omega)

/-- A store with 10001 objects is not. -/
theorem list_truncates : ∃ s trace result, Reachable s ∧ (s.listedIds []).card = 10001 ∧
    Runs (ServesListing sortByFilename) (list []) s trace result s ∧
    (∀ e ∈ trace, e.fate = .answered) ∧ ¬Complete s [] result := by
  obtain ⟨s, hreachable, hcard, -⟩ := exists_many_objects 10001
  obtain ⟨trace, result, hrun, hanswered⟩ := list_runs s sortByFilename []
  refine ⟨s, trace, result, hreachable, hcard, hrun, hanswered, fun hcomplete => ?_⟩
  have hindexed := Indexed.of_reachable hreachable
  obtain ⟨all, -, -, rfl⟩ := list_answered hindexed sortByFilename_sorts hrun hanswered
  have hlength := hcomplete.card_le hindexed
  rw [hcard, List.length_map, List.length_take] at hlength
  omega

end StorageClient

end StorageEngine
