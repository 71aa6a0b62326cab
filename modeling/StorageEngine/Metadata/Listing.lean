import Mathlib.Data.List.Sort
import StorageEngine.Metadata.Index
import StorageEngine.Metadata.Service

/-!
# Listing the objects

`list_objects` collects the objects from a hash map, sorts them by file name and cuts a
page out.  Two calls may meet the objects in different orders, and the sort is not stable:
the pages fit together because no two objects share a file name.
-/

namespace StorageEngine

/-! ## The listing -/

namespace MetadataStore

/-- The test of the loop of `list_objects`: `find(prefix)` is zero exactly when the name
starts with the prefix. -/
def listed (namePrefix : Str) (obj : ObjectInfo) : Bool :=
  namePrefix.isPrefixOf obj.filename

/-- `list_objects`, for the order in which it meets the objects and for what `std::sort`
does.  The end of the page is a `size_t`, and a sum of two 32-bit values fits. -/
def listObjects (sort : List ObjectInfo → List ObjectInfo) (visited : List ObjectInfo)
    (namePrefix : Str) (limit offset : UInt32) : List ObjectInfo :=
  let result := sort (visited.filter (listed namePrefix))
  if offset.toNat ≥ result.length then []
  else
    let stop := min result.length (offset.toNat + limit.toNat)
    (result.take stop).drop offset.toNat

/-- What `std::sort` promises for the comparison of the file names: it leaves the objects
in an order in which no name is below an earlier one. -/
structure SortsByFilename (sort : List ObjectInfo → List ObjectInfo) : Prop where
  perm : ∀ objs, (sort objs).Perm objs
  sorted : ∀ objs, (sort objs).Pairwise fun a b => ¬ b.filename < a.filename

/-! ## One list -/

/-- The order of the listing. -/
def Before (a b : ObjectInfo) : Prop := a.filename < b.filename

instance : Std.Irrefl Before where
  irrefl a := List.lt_irrefl a.filename

instance : Std.Antisymm Before where
  antisymm _ _ hab hba := absurd hba (List.lt_asymm hab)

/-- The sorted list is the same for every order in which the objects are met. -/
theorem exists_listing {s : MetadataStore} (hindexed : Indexed s)
    {sort : List ObjectInfo → List ObjectInfo} (hsort : SortsByFilename sort)
    (namePrefix : Str) :
    ∃ all : List ObjectInfo,
      (∀ obj, obj ∈ all ↔
        (∃ id, s.objectsById.lookup id = some obj) ∧ namePrefix <+: obj.filename) ∧
      all.Pairwise Before ∧
      ∀ visited, s.VisitsObjects visited → sort (visited.filter (listed namePrefix)) = all := by
  have hmem : ∀ visited, s.VisitsObjects visited → ∀ obj,
      obj ∈ sort (visited.filter (listed namePrefix)) ↔
        (∃ id, s.objectsById.lookup id = some obj) ∧ namePrefix <+: obj.filename := by
    intro visited hvisited obj
    rw [(hsort.perm _).mem_iff, List.mem_filter, hvisited.mem_iff, listed,
      List.isPrefixOf_iff_prefix]
  have hordered : ∀ visited, s.VisitsObjects visited →
      (sort (visited.filter (listed namePrefix))).Pairwise Before := by
    intro visited hvisited
    have hnodup : (sort (visited.filter (listed namePrefix))).Nodup := by
      rw [(hsort.perm _).nodup_iff]
      exact (List.Nodup.of_map _ (hvisited.ids_nodup hindexed)).filter _
    refine List.Pairwise.imp_of_mem ?_ ((hsort.sorted _).and hnodup)
    intro a b ha hb hab
    -- two objects with one name are one object
    have hname : a.filename ≠ b.filename := by
      intro hsame
      obtain ⟨⟨id, hid⟩, -⟩ := (hmem visited hvisited a).mp ha
      obtain ⟨⟨id', hid'⟩, -⟩ := (hmem visited hvisited b).mp hb
      have hkey := hindexed.inverse.key_unique hid hid' hsame
      rw [hkey, hid'] at hid
      exact hab.2 (Option.some.inj hid).symm
    by_contra hnot
    exact hname (List.le_antisymm hab.1 hnot)
  obtain ⟨first, hfirst⟩ := exists_visitsObjects s
  refine ⟨_, hmem first hfirst, hordered first hfirst, fun visited hvisited => ?_⟩
  apply (hordered visited hvisited).eq_of_mem_iff (hordered first hfirst)
  intro obj
  rw [hmem visited hvisited, hmem first hfirst]

/-! ## Its pages -/

theorem listObjects_eq {sort : List ObjectInfo → List ObjectInfo} {visited all : List ObjectInfo}
    {namePrefix : Str} (h : sort (visited.filter (listed namePrefix)) = all)
    (limit offset : UInt32) :
    listObjects sort visited namePrefix limit offset =
      (all.drop offset.toNat).take limit.toNat := by
  rw [listObjects, h]
  dsimp only
  split
  · next hbehind => rw [List.drop_eq_nil_of_le hbehind, List.take_nil]
  · rw [List.drop_take]
    have hlength : (all.drop offset.toNat).length = all.length - offset.toNat := List.length_drop
    rcases Nat.le_total (offset.toNat + limit.toNat) all.length with hinside | hbeyond
    · rw [Nat.min_eq_right hinside, Nat.add_sub_cancel_left]
    · rw [Nat.min_eq_left hbeyond, List.take_of_length_le (by omega),
        List.take_of_length_le (by omega)]

/-- The first pages of a list are its beginning. -/
theorem flatMap_pages {α : Type} (all : List α) (limit n : ℕ) :
    (List.range n).flatMap (fun k => (all.drop (k * limit)).take limit) =
      all.take (n * limit) := by
  induction n with
  | zero => simp
  | succ n ih =>
    rw [List.range_succ, List.flatMap_append, ih, List.flatMap_singleton, Nat.succ_mul,
      List.take_add]

/-- The pages of a listing are the consecutive pieces of one list, which has each object
with the prefix once, in the order of the file names: every page is full as long as the
list goes on behind it, and empty behind the end. -/
theorem list_pages {s : MetadataStore} (hreachable : Reachable s)
    {sort : List ObjectInfo → List ObjectInfo} (hsort : SortsByFilename sort)
    (namePrefix : Str) (limit : UInt32) (hlimit : 1 ≤ limit) :
    ∃ all : List ObjectInfo,
      (∀ obj, obj ∈ all ↔
        (∃ id, s.objectsById.lookup id = some obj) ∧ namePrefix <+: obj.filename) ∧
      (all.Pairwise fun a b => a.filename < b.filename) ∧
      ∀ visited : ℕ → List ObjectInfo, (∀ k, s.VisitsObjects (visited k)) →
        (∀ k, k * limit.toNat < 2 ^ 32 →
          let page := listObjects sort (visited k) namePrefix limit
            (UInt32.ofNat (k * limit.toNat))
          (page ≠ [] ↔ k * limit.toNat < all.length) ∧
          page.length = min limit.toNat (all.length - k * limit.toNat)) ∧
        ∀ n, (∀ k < n, k * limit.toNat < 2 ^ 32) →
          (List.range n).flatMap (fun k => listObjects sort (visited k) namePrefix limit
            (UInt32.ofNat (k * limit.toNat))) = all.take (n * limit.toNat) := by
  obtain ⟨all, hmem, hordered, hall⟩ :=
    exists_listing (Indexed.of_reachable hreachable) hsort namePrefix
  have hpos : 1 ≤ limit.toNat := UInt32.le_iff_toNat_le.mp hlimit
  refine ⟨all, hmem, hordered, fun visited hvisited => ?_⟩
  have hpage : ∀ k, k * limit.toNat < 2 ^ 32 →
      listObjects sort (visited k) namePrefix limit (UInt32.ofNat (k * limit.toNat)) =
        (all.drop (k * limit.toNat)).take limit.toNat := by
    intro k hk
    rw [listObjects_eq (hall (visited k) (hvisited k)), UInt32.toNat_ofNat_of_lt' hk]
  refine ⟨fun k hk => ?_, fun n hn => ?_⟩
  · have hlength : ((all.drop (k * limit.toNat)).take limit.toNat).length =
        min limit.toNat (all.length - k * limit.toNat) := by
      rw [List.length_take, List.length_drop]
    rw [hpage k hk]
    refine ⟨?_, hlength⟩
    rw [← List.length_pos_iff_ne_nil, hlength]
    omega
  · rw [← flatMap_pages]
    apply List.flatMap_congr
    intro k hk
    exact hpage k (hn k (List.mem_range.mp hk))

/-- A sort by insertion, which keeps the promise. -/
def sortByFilename (objs : List ObjectInfo) : List ObjectInfo :=
  objs.insertionSort fun a b => a.filename ≤ b.filename

theorem sortByFilename_sorts : SortsByFilename sortByFilename := by
  have htotal : Std.Total fun a b : ObjectInfo => a.filename ≤ b.filename :=
    ⟨fun a b => List.le_total a.filename b.filename⟩
  have htrans : IsTrans ObjectInfo fun a b => a.filename ≤ b.filename :=
    ⟨fun _ _ _ hab hbc => List.le_trans hab hbc⟩
  exact ⟨fun objs => List.perm_insertionSort _ objs,
    fun objs => List.pairwise_insertionSort (fun a b => a.filename ≤ b.filename) objs⟩

/-- A store with one object. -/
theorem exists_one_object : ∃ s o, Reachable s ∧ o.filename = str "a.txt" ∧
    ∀ obj, (∃ id, s.objectsById.lookup id = some obj) ↔ obj = o := by
  let uuid : ℕ → Str := fun n => if n = 0 then str "o" else str "c"
  let o := newObject uuid 1 (str "a.txt") 0 1 (str "default")
    [{ chunkId := str "c", objectId := str "o", version := 1 }]
  let s : MetadataStore :=
    { objectsById := (∅ : UnorderedMap Str ObjectInfo).insert (str "o") o
      filenameToId := (∅ : UnorderedMap Str Str).insert (str "a.txt") (str "o") }
  have hcreate : Step {} s :=
    .create uuid 1 (str "a.txt") 0 1 (str "default") 4194304 (some o) Finmap.notMem_empty rfl
  refine ⟨s, o, Relation.ReflTransGen.refl.tail hcreate, rfl, fun obj => ⟨?_, ?_⟩⟩
  · intro hobj
    obtain ⟨id, hid⟩ := hobj
    rcases Lib.lookup_insert_cases hid with ⟨-, hsame⟩ | ⟨-, hother⟩
    · exact hsame
    · exact absurd (Finmap.mem_of_lookup_eq_some hother) Finmap.notMem_empty
  · intro hsame
    rw [hsame]
    exact ⟨_, Finmap.lookup_insert _⟩

/-- One object, and a page size of one: the first page has it, and the second is empty. -/
theorem list_pages_one_object : ∃ s visited o, Reachable s ∧ s.VisitsObjects visited ∧
    o.filename = str "a.txt" ∧
    listObjects sortByFilename visited (str "a") 1 0 = [o] ∧
    listObjects sortByFilename visited (str "a") 1 1 = [] := by
  obtain ⟨s, o, hreachable, hname, hobjects⟩ := exists_one_object
  obtain ⟨visited, hvisited⟩ := exists_visitsObjects s
  obtain ⟨all, hmem, hordered, hpages⟩ :=
    list_pages hreachable sortByFilename_sorts (str "a") 1 (by decide)
  have hall : all = [o] := by
    apply List.Pairwise.eq_of_mem_iff (r := Before) hordered (List.pairwise_singleton _ o)
    intro obj
    rw [hmem, hobjects, List.mem_singleton]
    constructor
    · exact fun hobj => hobj.1
    · intro hsame
      rw [hsame, hname]
      exact ⟨rfl, by decide⟩
  obtain ⟨hpage, hfirst⟩ := hpages (fun _ => visited) fun _ => hvisited
  refine ⟨s, visited, o, hreachable, hvisited, hname, ?_, ?_⟩
  · have hone := hfirst 1 (by decide)
    rw [hall] at hone
    simpa using hone
  · have hsecond := (hpage 1 (by decide)).1
    rw [hall] at hsecond
    by_contra hne
    exact absurd (hsecond.mp hne) (by simp)

end MetadataStore

/-! ## The service -/

structure ListObjectsRequest where
  namePrefix : Str := []
  limit : UInt32 := 0
  offset : UInt32 := 0
  deriving DecidableEq, Repr

structure ListObjectsResponse where
  objects : List ObjectMetadata := []
  total : UInt32 := 0
  deriving DecidableEq, Repr

namespace MetadataService

open MetadataStore

/-- The page size of a request: 1000 unless it asks for another one. -/
def pageLimit (req : ListObjectsRequest) : UInt32 :=
  if req.limit > 0 then req.limit else 1000

/-- `ListObjects`.  The `total` of a response counts the objects of its page. -/
def listObjects (sort : List ObjectInfo → List ObjectInfo) (visited : List ObjectInfo)
    (req : ListObjectsRequest) : ListObjectsResponse :=
  let objects :=
    MetadataStore.listObjects sort visited req.namePrefix (pageLimit req) req.offset
  { objects := objects.map ObjectInfo.toProto, total := UInt32.ofNat objects.length }

/-- The responses to the requests for the pages have the listing, piece by piece. -/
theorem listObjects_pages {s : MetadataStore} (hindexed : Indexed s)
    {sort : List ObjectInfo → List ObjectInfo} (hsort : SortsByFilename sort)
    (req : ListObjectsRequest) :
    ∃ all : List ObjectInfo, (∀ obj, obj ∈ all ↔
        (∃ id, s.objectsById.lookup id = some obj) ∧ req.namePrefix <+: obj.filename) ∧
      all.Pairwise Before ∧
      ∀ visited, s.VisitsObjects visited → ∀ offset : UInt32,
        (listObjects sort visited { req with offset := offset }).objects =
          ((all.drop offset.toNat).take (pageLimit req).toNat).map ObjectInfo.toProto := by
  obtain ⟨all, hmem, hordered, hall⟩ := exists_listing hindexed hsort req.namePrefix
  refine ⟨all, hmem, hordered, fun visited hvisited offset => ?_⟩
  exact congrArg (List.map ObjectInfo.toProto)
    (listObjects_eq (hall visited hvisited) (pageLimit req) offset)

end MetadataService

end StorageEngine
