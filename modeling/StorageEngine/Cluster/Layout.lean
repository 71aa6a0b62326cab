import StorageEngine.Cluster.ChunkIds

/-!
# The layout of the stored objects

What the plan of an object fixes of its chunks: their ids, their owner, their indexes and
their sizes, in order.  `UpdateChunk` overwrites a chunk with whatever it is sent, so the
layout stays only if the request agrees with the stored chunk.

* `LaidOut` is what should hold of the stored objects, and `Numbered` is what does hold:
  the index of a chunk is its position in 32 bits.
* `Agrees`: a chunk that was received once has the slot of the stored one ever after.
* `UpdatesOnly` is what a successful `UpdateChunk` does, and what is located then.
-/

namespace StorageEngine

open Lib MetadataStore MetadataService

/-- What the plan of an object fixes of a chunk. -/
structure ChunkSlot where
  chunkId : Str
  objectId : Str
  chunkIndex : UInt32
  size : UInt64
  deriving DecidableEq, Repr

def ChunkInfo.slot (c : ChunkInfo) : ChunkSlot :=
  ⟨c.chunkId, c.objectId, c.chunkIndex, c.size⟩

def ChunkMetadata.slot (pb : ChunkMetadata) : ChunkSlot :=
  ⟨pb.chunkId, pb.objectId, pb.chunkIndex, pb.size⟩

@[simp] theorem ChunkInfo.slot_toProto (c : ChunkInfo) : c.toProto.slot = c.slot := rfl

@[simp] theorem ChunkMetadata.slot_fromProto (pb : ChunkMetadata) :
    pb.fromProto.slot = pb.slot := rfl

/-- The conversions of a message lose nothing. -/
@[simp] theorem ChunkMetadata.toProto_fromProto (pb : ChunkMetadata) :
    pb.fromProto.toProto = pb := by
  have hreplica : ReplicaInfo.toProto ∘ ReplicaLocation.fromProto = id := rfl
  simp [ChunkInfo.toProto, ChunkMetadata.fromProto, hreplica]

/-- The slots of the chunks, in order. -/
def ObjectInfo.layout (obj : ObjectInfo) : List ChunkSlot :=
  obj.chunks.map ChunkInfo.slot

/-- No replica, or exactly one primary, which is the first. -/
def PrimaryFirst : List ReplicaInfo → Prop
  | [] => True
  | first :: rest => first.isPrimary = true ∧ ∀ r ∈ rest, r.isPrimary = false

/-- The stored objects are laid out as planned. -/
structure MetadataStore.LaidOut (s : MetadataStore) : Prop where
  index : ∀ {key obj}, s.objectsById.lookup key = some obj →
    ∀ {i : ℕ} {c : ChunkInfo}, obj.chunks[i]? = some c → c.chunkIndex.toNat = i
  sizes : ∀ {key obj}, s.objectsById.lookup key = some obj →
    (obj.chunks.map fun c => c.size.toNat).sum = obj.size.toNat
  owner : ∀ {key obj}, s.objectsById.lookup key = some obj →
    obj.objectId = key ∧ ∀ c ∈ obj.chunks, c.objectId = key
  unique : ∀ {key key' obj obj'}, s.objectsById.lookup key = some obj →
    s.objectsById.lookup key' = some obj' → ∀ {i j : ℕ} {c c' : ChunkInfo},
      obj.chunks[i]? = some c → obj'.chunks[j]? = some c' → c.chunkId = c'.chunkId →
        key = key' ∧ i = j
  primary : ∀ {key obj}, s.objectsById.lookup key = some obj →
    ∀ c ∈ obj.chunks, PrimaryFirst c.replicas

namespace MetadataNode

/-- The index of a chunk is its position in 32 bits. -/
structure Numbered (n : MetadataNode) : Prop where
  ids : n.ChunkIds
  parented : n.Parented
  index : ∀ {key obj}, n.store.objectsById.lookup key = some obj →
    ∀ {i : ℕ} {slot : ChunkSlot}, obj.layout[i]? = some slot → slot.chunkIndex = UInt32.ofNat i
  sizes : ∀ {key obj}, n.store.objectsById.lookup key = some obj →
    (obj.layout.map fun slot => slot.size.toNat).sum = obj.size.toNat
  primary : ∀ {key obj}, n.store.objectsById.lookup key = some obj →
    ∀ c ∈ obj.chunks, PrimaryFirst c.replicas

/-- Before any object is created, whatever nodes have registered. -/
theorem numbered_start (nodes : NodeTable) : Numbered { store := { nodes := nodes } } where
  ids := @ChunkIds.retain {} _ chunkIds_empty (indexed_empty.same ⟨rfl, rfl⟩)
    (fun h => by simp at h) rfl
  parented h := by simp at h
  index h := by simp at h
  sizes h := by simp at h
  primary h := by simp at h

/-- Only positions that need more than 32 bits are lost. -/
theorem Numbered.laidOut_iff {n : MetadataNode} (h : n.Numbered) :
    n.store.LaidOut ↔ ∀ key obj, n.store.objectsById.lookup key = some obj →
      obj.chunks.length ≤ 2 ^ 32 := by
  have hindex : ∀ {key obj}, n.store.objectsById.lookup key = some obj →
      ∀ {i : ℕ} {c : ChunkInfo}, obj.chunks[i]? = some c →
        c.chunkIndex.toNat = i % 2 ^ 32 := by
    intro key obj hobj i c hc
    have hslot : obj.layout[i]? = some c.slot := by
      rw [ObjectInfo.layout, List.getElem?_map, hc]
      rfl
    have hnumber : c.chunkIndex = UInt32.ofNat i := h.index hobj hslot
    rw [hnumber, UInt32.toNat_ofNat']
  constructor
  · intro hlaid key obj hobj
    by_contra hlong
    have hpos : 2 ^ 32 < obj.chunks.length := by omega
    have hc := List.getElem?_eq_getElem hpos
    have hwrapped := hindex hobj hc
    rw [hlaid.index hobj hc] at hwrapped
    omega
  · intro hshort
    refine ⟨fun {key obj} hobj {i c} hc => ?_, fun {key obj} hobj => ?_, fun {key obj} hobj => ?_,
      fun {key key' obj obj'} hobj hobj' {i j c c'} hc hc' hid => ?_, h.primary⟩
    · have hi := (List.getElem?_eq_some_iff.mp hc).1
      rw [hindex hobj hc, Nat.mod_eq_of_lt (by have := hshort key obj hobj; omega)]
    · have hsizes := h.sizes hobj
      rw [ObjectInfo.layout, List.map_map] at hsizes
      exact hsizes
    · exact ⟨h.ids.indexed.keyed hobj, h.parented hobj⟩
    · have hmem := List.mem_of_getElem? hc
      have hmem' := List.mem_of_getElem? hc'
      obtain ⟨rfl, rfl, rfl⟩ := h.ids.chunk_unique hobj hobj' hmem hmem' hid
      have hnodup : obj.chunks.Nodup := List.Nodup.of_map _ (h.ids.nodup hobj)
      have hi := (List.getElem?_eq_some_iff.mp hc).1
      exact ⟨rfl, (List.getElem?_inj hi hnodup).mp (hc.trans hc'.symm)⟩

end MetadataNode

/-! ## Creation -/

/-- The plan of a created object. -/
theorem MetadataService.Serves.create_plan {cfg : ClusterConfig} {req : CreateObjectRequest}
    {n n' : MetadataNode} {resp : CreateObjectResponse}
    (h : Serves cfg (.createObject req) n resp n') (hok : resp.success = true) :
    ∃ (uuid : ℕ → Str) (chunks : List ChunkInfo),
      planChunks (fun k => uuid (k + 1)) (uuid 0) req.size (chunkSizeBytes cfg req) =
        some chunks ∧
      resp.object.chunks = chunks.map ChunkInfo.toProto ∧ resp.object.size = req.size := by
  cases h with
  | @createObject _ _ uuid now _ store hdraws hnodup hfresh hcreate =>
    rw [MetadataService.createObject] at hcreate
    split at hcreate
    · cases hcreate
    · cases hcreate
      cases hok
    · next obj store' heq =>
      cases hcreate
      obtain ⟨chunks, hplan, -, rfl, -⟩ := createObject_created heq
      exact ⟨uuid, chunks, hplan, rfl, rfl⟩

/-- The chunks of a created object are numbered, and there are as many as its size needs. -/
structure MetadataService.Counted (cfg : ClusterConfig) (req : CreateObjectRequest)
    (obj : ObjectInfo) : Prop where
  index : ∀ {i : ℕ} {slot : ChunkSlot}, obj.layout[i]? = some slot →
    slot.chunkIndex = UInt32.ofNat i
  size : obj.size = req.size
  length_le_iff : ∀ {k : ℕ}, 1 ≤ k →
    (obj.chunks.length ≤ k ↔ req.size.toNat ≤ k * (chunkSizeBytes cfg req).toNat)

/-- `CreateObject` changes nothing, or it creates an object. -/
theorem MetadataService.Serves.create_counted {cfg : ClusterConfig} {req : CreateObjectRequest}
    {n n' : MetadataNode} {resp : CreateObjectResponse}
    (h : Serves cfg (.createObject req) n resp n') :
    (resp.success = false ∧ n' = n ∧ req.filename ∈ n.store.filenameToId) ∨
      ∃ obj, resp = { success := true, object := obj.toProto } ∧ Created cfg req n obj n' ∧
        Counted cfg req obj := by
  rcases h.create_cases with hrefused | ⟨obj, hresp, hcreated⟩
  · exact .inl hrefused
  refine .inr ⟨obj, hresp, hcreated, ?_⟩
  have hok : resp.success = true := by rw [hresp]
  obtain ⟨uuid, chunks, hplan, hchunks, hsize⟩ := h.create_plan hok
  rw [hresp] at hchunks hsize
  -- the planned chunks are those of the object
  have hsame : obj.chunks = chunks := by
    have hback := congrArg (List.map ChunkMetadata.fromProto) hchunks
    rw [ObjectInfo.toProto_chunks, List.map_map, List.map_map] at hback
    simpa [Function.comp_def] using hback
  refine ⟨fun {i slot} hslot => ?_, hsize, fun {k} hk => ?_⟩
  · rw [ObjectInfo.layout, hsame, List.getElem?_map] at hslot
    obtain ⟨c, hc, rfl⟩ := Option.map_eq_some_iff.mp hslot
    exact (planChunks_index hplan hc).1
  · rw [hsame]
    exact planChunks_length_le_iff hplan hk

/-! ## Received chunks -/

/-- The slot of this id is stored as it is here, if it is. -/
structure MetadataNode.Agrees (n : MetadataNode) (slot : ChunkSlot) : Prop where
  issued : slot.chunkId ∈ n.issued
  stored : ∀ {key c}, n.Holds key c → c.chunkId = slot.chunkId → c.slot = slot

/-- An update sends a chunk that agrees with the stored one, to its object, with at most
one primary. -/
def MetadataRpc.Faithful (n : MetadataNode) : MetadataRpc → Prop
  | .updateChunk req => req.chunk.objectId = req.objectId ∧ n.Agrees req.chunk.slot ∧
      PrimaryFirst req.chunk.fromProto.replicas
  | _ => True

theorem MetadataRpc.Faithful.ownChunk {n : MetadataNode} {q : MetadataRpc}
    (h : q.Faithful n) : q.OwnChunk := by
  cases q <;> first | exact h.1 | exact trivial

namespace MetadataNode

variable {cfg : ClusterConfig} {n n' : MetadataNode} {q : MetadataRpc} {r : q.Reply}

theorem issued_subset (hserves : Serves cfg q n r n') : n.issued ⊆ n'.issued := by
  intro id hid
  cases hserves.change with
  | same _ hissued => rwa [hissued]
  | created _ hcreated =>
    rw [hcreated.issued]
    exact List.mem_append_right _ hid
  | deleted _ _ hn => rwa [hn]
  | updated _ _ _ hn => rwa [hn]

/-- What agrees with the stored chunk goes on to. -/
theorem Agrees.serve {slot : ChunkSlot} (h : n.Agrees slot) (hfaithful : q.Faithful n)
    (hserves : Serves cfg q n r n') : n'.Agrees slot := by
  refine ⟨issued_subset hserves h.issued, fun {key c} hc hid => ?_⟩
  rcases holds_serve hserves hc with hold | ⟨hfresh, -⟩ | ⟨req, old, rfl, -, rfl, hold, hsame⟩
  · exact h.stored hold hid
  · rw [hid] at hfresh
    exact absurd h.issued hfresh
  · -- the stored chunk has both slots
    have hsent := hfaithful.2.1.stored hold hsame
    have hkept := h.stored hold (hsame.trans hid)
    rw [ChunkMetadata.slot_fromProto, ← hsent, hkept]

/-! ## Steps -/

/-- The objects after a call are those before it, with their layout and size, or created. -/
theorem Numbered.layout_serve (h : n.Numbered) (hfaithful : q.Faithful n)
    (hserves : Serves cfg q n r n') {key : Str} {obj' : ObjectInfo}
    (hobj' : n'.store.objectsById.lookup key = some obj') :
    (∃ obj, n.store.objectsById.lookup key = some obj ∧ obj'.layout = obj.layout ∧
        obj'.size = obj.size ∧ ∀ c ∈ obj'.chunks, PrimaryFirst c.replicas) ∨
      ∃ req, q = .createObject req ∧ n.store.objectsById.lookup key = none ∧
        Created cfg req n obj' n' ∧ Counted cfg req obj' := by
  cases hserves.change with
  | same hobjects _ =>
    rw [hobjects.1] at hobj'
    exact .inl ⟨obj', hobj', rfl, rfl, h.primary hobj'⟩
  | @created req obj hq hcreated =>
    subst hq
    rcases hserves.create_counted with ⟨-, hsame, -⟩ | ⟨obj, -, hcreated, hcounted⟩
    · rw [hsame] at hobj'
      exact .inl ⟨obj', hobj', rfl, rfl, h.primary hobj'⟩
    · have hlookup := hobj'
      rw [hcreated.store] at hlookup
      rcases lookup_insert_cases hlookup with ⟨rfl, rfl⟩ | ⟨-, hold⟩
      · refine .inr ⟨req, rfl, ?_, hcreated, hcounted⟩
        cases hold : n.store.objectsById.lookup obj'.objectId with
        | none => rfl
        | some old =>
          -- the id was drawn for an object before
          have hdrawn := (h.ids.drawn hold _ List.mem_cons_self).1
          rw [h.ids.indexed.keyed hold] at hdrawn
          exact absurd hdrawn (hcreated.fresh _ List.mem_cons_self)
      · exact .inl ⟨obj', hold, rfl, rfl, h.primary hold⟩
  | deleted _ _ hn =>
    subst hn
    have hold := objects_of_delete hobj'
    exact .inl ⟨obj', hold, rfl, rfl, h.primary hold⟩
  | @updated req obj chunks now hq hobj hreplace hn =>
    subst hq hn
    rcases lookup_insert_cases hobj' with ⟨rfl, rfl⟩ | ⟨-, hold⟩
    · obtain ⟨before, old, after, hchunks, hid, rfl⟩ := replaceChunk_cases hreplace
      have hslot := hfaithful.2.1.stored ⟨obj, hobj, by simp [hchunks]⟩ hid
      refine .inl ⟨obj, hobj, ?_, rfl, fun c hc => ?_⟩
      · simp only [ObjectInfo.layout, hchunks, List.map_append, List.map_cons, hslot,
          ChunkMetadata.slot_fromProto]
      · have hprimary := h.primary hobj
        rcases List.mem_append.mp hc with hc | hc
        · exact hprimary c (by simp [hchunks, hc])
        · rcases List.mem_cons.mp hc with rfl | hc
          · exact hfaithful.2.2
          · exact hprimary c (by simp [hchunks, hc])
    · exact .inl ⟨obj', hold, rfl, rfl, h.primary hold⟩

/-- Faithful calls keep the numbering. -/
theorem Numbered.serve (h : n.Numbered) (hfaithful : q.Faithful n)
    (hserves : Serves cfg q n r n') : n'.Numbered := by
  refine ⟨h.ids.serve hserves,
    @Parented.serve n n' h.parented cfg q r hfaithful.ownChunk hserves,
    fun {key obj'} hobj' {i slot} hslot => ?_, fun {key obj'} hobj' => ?_,
    fun {key obj'} hobj' => ?_⟩
  · rcases h.layout_serve hfaithful hserves hobj' with
      ⟨obj, hobj, hlayout, -, -⟩ | ⟨req, -, -, -, hcounted⟩
    · rw [hlayout] at hslot
      exact h.index hobj hslot
    · exact hcounted.index hslot
  · rcases h.layout_serve hfaithful hserves hobj' with
      ⟨obj, hobj, hlayout, hsize, -⟩ | ⟨req, -, -, hcreated, hcounted⟩
    · rw [hlayout, hsize]
      exact h.sizes hobj
    · have hsizes := hcreated.sizes
      rw [← hcounted.size] at hsizes
      rw [ObjectInfo.layout, List.map_map]
      exact hsizes
  · rcases h.layout_serve hfaithful hserves hobj' with
      ⟨obj, -, -, -, hprimary⟩ | ⟨req, -, -, hcreated, -⟩
    · exact hprimary
    · intro c hc
      rw [(hcreated.planned c hc).replicas]
      exact trivial

end MetadataNode

/-! ## What an update changes -/

/-- The response with another chunk at this position. -/
def LocateObjectResponse.withChunk (located : LocateObjectResponse) (i : ℕ)
    (chunk : ChunkMetadata) (now : TimestampMs) : LocateObjectResponse :=
  { located with
    object := { located.object with
      chunks := located.object.chunks.set i chunk
      updatedAtMs := now } }

/-- The stored object has the chunk that was sent in place of the one with its id, and the
time, and nothing else is changed. -/
structure UpdatesAt (req : UpdateChunkRequest) (i : ℕ) (now : TimestampMs) (obj : ObjectInfo)
    (s s' : MetadataStore) : Prop where
  stored : s.objectsById.lookup req.objectId = some obj
  addressed : (obj.chunks[i]?).map ChunkInfo.chunkId = some req.chunk.chunkId
  only : s' = { s with
    objectsById := s.objectsById.insert req.objectId
      { obj with chunks := obj.chunks.set i req.chunk.fromProto, updatedAt := now } }
  found : locateObject s { objectId := req.objectId } = { success := true, object := obj.toProto }
  located : ∀ loc, locateObject s' loc =
    if (locateObject s loc).success = true ∧ (locateObject s loc).object.objectId = req.objectId
    then (locateObject s loc).withChunk i req.chunk now
    else locateObject s loc

def UpdatesOnly (req : UpdateChunkRequest) (s s' : MetadataStore) : Prop :=
  ∃ i now obj, UpdatesAt req i now obj s s'

/-- The object that a request locates. -/
def MetadataStore.found (s : MetadataStore) (loc : LocateObjectRequest) : Option ObjectInfo :=
  if loc.objectId ≠ [] then s.locateById loc.objectId
  else if loc.filename ≠ [] then s.locateByFilename loc.filename
  else none

theorem locateObject_eq (s : MetadataStore) (loc : LocateObjectRequest) :
    locateObject s loc =
      match s.found loc with
      | none => { success := false, message := str "Object not found" }
      | some obj => { success := true, object := obj.toProto } := rfl

/-- A located object is stored under its id. -/
theorem MetadataStore.found_stored {s : MetadataStore} (hindexed : Indexed s)
    {loc : LocateObjectRequest} {obj : ObjectInfo} (h : s.found loc = some obj) :
    s.objectsById.lookup obj.objectId = some obj := by
  have hstored : ∀ {id}, s.objectsById.lookup id = some obj →
      s.objectsById.lookup obj.objectId = some obj := by
    intro id hobj
    rw [hindexed.keyed hobj, hobj]
  rw [found] at h
  split at h
  · exact hstored h
  · split at h
    · rw [locateByFilename] at h
      split at h
      · cases h
      · exact hstored h
    · cases h

/-- What is located once an object has been replaced. -/
theorem MetadataStore.found_insert {s : MetadataStore} (hindexed : Indexed s) {key : Str}
    {obj : ObjectInfo} (hobj : s.objectsById.lookup key = some obj) (obj' : ObjectInfo)
    (loc : LocateObjectRequest) :
    { s with objectsById := s.objectsById.insert key obj' }.found loc =
      (s.found loc).map fun o => if o.objectId = key then obj' else o := by
  have hlookup : ∀ id, (s.objectsById.insert key obj').lookup id =
      (s.objectsById.lookup id).map fun o => if o.objectId = key then obj' else o := by
    intro id
    by_cases hid : id = key
    · subst hid
      rw [Finmap.lookup_insert, hobj, Option.map_some, if_pos (hindexed.keyed hobj)]
    · rw [Finmap.lookup_insert_of_ne _ hid]
      cases ho : s.objectsById.lookup id with
      | none => rfl
      | some o => rw [Option.map_some, if_neg (by rwa [hindexed.keyed ho])]
  unfold found
  split
  · exact hlookup loc.objectId
  · split
    · simp only [locateByFilename]
      cases s.filenameToId.lookup loc.filename with
      | none => rfl
      | some id => exact hlookup id
    · rfl

/-- A successful update changes one chunk. -/
theorem MetadataNode.Numbered.update_cases {cfg : ClusterConfig} {n n' : MetadataNode}
    (h : n.Numbered) {req : UpdateChunkRequest} {resp : StatusResponse}
    (hserves : Serves cfg (.updateChunk req) n resp n') :
    (n' = n ∧ resp.success = false) ∨ UpdatesOnly req n.store n'.store := by
  cases hserves with
  | updateChunk _ _ now =>
    rcases updateChunk_cases now n.store req.objectId req.chunk.fromProto with
      heq | ⟨obj, chunks, hobj, hreplace, heq⟩
    · refine .inl ⟨?_, ?_⟩ <;> simp only [MetadataService.updateChunk, heq]
      rfl
    · obtain ⟨before, old, after, hchunks, hid, rfl⟩ := replaceChunk_cases hreplace
      have hset : before ++ req.chunk.fromProto :: after =
          obj.chunks.set before.length req.chunk.fromProto := by
        rw [hchunks, List.set_append_right _ _ le_rfl, Nat.sub_self, List.set_cons_zero]
      have hindexed := h.ids.indexed
      have hnonempty : req.objectId ≠ [] := by
        intro hnil
        have hlength := (h.ids.drawn hobj _ List.mem_cons_self).2
        rw [hindexed.keyed hobj, hnil] at hlength
        cases hlength
      rw [hset] at heq
      refine .inr ⟨before.length, now, obj, hobj, ?_, ?_, ?_, fun loc => ?_⟩
      · rw [hchunks, List.getElem?_append_right le_rfl, Nat.sub_self]
        exact congrArg some hid
      · simp only [MetadataService.updateChunk, heq]
      · simp only [locateObject, if_pos hnonempty, locateById, hobj]
      · simp only [MetadataService.updateChunk, heq]
        rw [locateObject_eq, locateObject_eq, found_insert hindexed hobj]
        cases ho : n.store.found loc with
        | none => rfl
        | some o =>
          simp only [Option.map_some, true_and, ObjectInfo.toProto_objectId]
          split
          · next hkey =>
            have hstored := found_stored hindexed ho
            rw [hkey, hobj] at hstored
            cases hstored
            simp only [LocateObjectResponse.withChunk, ObjectInfo.toProto, List.map_set,
              ChunkMetadata.toProto_fromProto]
          · rfl

end StorageEngine
