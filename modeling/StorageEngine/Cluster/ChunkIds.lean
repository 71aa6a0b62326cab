import StorageEngine.Cluster.Calls
import StorageEngine.Lib.Interleaving

/-!
# The chunk ids of the stored objects

Which chunk an id names, in every state of the metadata node that served calls lead to.

* `ChunkIds`: no id is that of two chunks, in one object or in two.
* `Parented`: a chunk names its own object.  The service does not check this, so it
  holds only if every `UpdateChunk` call does.
-/

namespace StorageEngine

open Lib Lib.Remote MetadataStore MetadataService

/-- `s'` has objects of `s` only, with the ids that their chunks have there. -/
def MetadataStore.Retains (s s' : MetadataStore) : Prop :=
  ∀ {key obj'}, s'.objectsById.lookup key = some obj' →
    ∃ obj, s.objectsById.lookup key = some obj ∧ obj'.objectId = obj.objectId ∧
      obj'.chunks.map ChunkInfo.chunkId = obj.chunks.map ChunkInfo.chunkId

/-- Replacing a chunk leaves all ids. -/
theorem MetadataStore.replaceChunk_ids {chunk : ChunkInfo} {chunks chunks' : List ChunkInfo}
    (h : replaceChunk chunk chunks = some chunks') :
    chunks'.map ChunkInfo.chunkId = chunks.map ChunkInfo.chunkId := by
  obtain ⟨before, c, after, rfl, hid, rfl⟩ := replaceChunk_cases h
  simp [hid]

/-- A call that creates no object retains some of those that there are. -/
theorem MetadataService.Change.retains {cfg : ClusterConfig} {q : MetadataRpc}
    {n n' : MetadataNode} (h : Change cfg q n n') :
    (∃ req obj, q = .createObject req ∧ Created cfg req n obj n') ∨
      n.store.Retains n'.store ∧ n'.issued = n.issued := by
  cases h with
  | same hobjects hissued =>
    refine .inr ⟨fun {key obj'} hobj' => ?_, hissued⟩
    rw [hobjects.1] at hobj'
    exact ⟨obj', hobj', rfl, rfl⟩
  | created hq hcreated => exact .inl ⟨_, _, hq, hcreated⟩
  | deleted hq hobj hn =>
    subst hn
    exact .inr ⟨fun {key obj'} hobj' => ⟨obj', objects_of_delete hobj', rfl, rfl⟩, rfl⟩
  | @updated req obj chunks now hq hobj hreplace hn =>
    subst hn
    refine .inr ⟨fun {key obj'} hobj' => ?_, rfl⟩
    rcases lookup_insert_cases hobj' with ⟨rfl, rfl⟩ | ⟨-, hobj'⟩
    · exact ⟨obj, hobj, rfl, replaceChunk_ids hreplace⟩
    · exact ⟨obj', hobj', rfl, rfl⟩

/-! ## No id twice -/

/-- Every id names one object or one chunk, and was drawn for it. -/
structure MetadataNode.ChunkIds (n : MetadataNode) : Prop where
  indexed : Indexed n.store
  nodup : ∀ {key obj}, n.store.objectsById.lookup key = some obj →
    (obj.chunks.map ChunkInfo.chunkId).Nodup
  disjoint : ∀ {key key' obj obj'}, n.store.objectsById.lookup key = some obj →
    n.store.objectsById.lookup key' = some obj' → ∀ id ∈ obj.chunks.map ChunkInfo.chunkId,
      id ∈ obj'.chunks.map ChunkInfo.chunkId → key = key'
  drawn : ∀ {key obj}, n.store.objectsById.lookup key = some obj →
    ∀ id ∈ obj.objectId :: obj.chunks.map ChunkInfo.chunkId, id ∈ n.issued ∧ id.length = 36

theorem MetadataNode.chunkIds_empty : ChunkIds {} where
  indexed := indexed_empty
  nodup h := by simp at h
  disjoint h := by simp at h
  drawn h := by simp at h

namespace MetadataNode.ChunkIds

variable {n n' : MetadataNode}

theorem retain (h : n.ChunkIds) (hindexed : Indexed n'.store)
    (hretains : n.store.Retains n'.store) (hissued : n'.issued = n.issued) : n'.ChunkIds where
  indexed := hindexed
  nodup hobj' := by
    obtain ⟨obj, hobj, -, hids⟩ := hretains hobj'
    rw [hids]
    exact h.nodup hobj
  disjoint hobj₁ hobj₂ id hid hid' := by
    obtain ⟨obj₁, hobj₁, -, hids⟩ := hretains hobj₁
    obtain ⟨obj₂, hobj₂, -, hids'⟩ := hretains hobj₂
    exact h.disjoint hobj₁ hobj₂ id (hids ▸ hid) (hids' ▸ hid')
  drawn hobj' := by
    obtain ⟨obj, hobj, hid, hids⟩ := hretains hobj'
    rw [hissued, hid, hids]
    exact h.drawn hobj

theorem create (h : n.ChunkIds) {cfg : ClusterConfig} {req : CreateObjectRequest}
    {obj : ObjectInfo} (hcreated : Created cfg req n obj n') : n'.ChunkIds := by
  have hold : ∀ {key o}, n'.store.objectsById.lookup key = some o →
      key = obj.objectId ∧ o = obj ∨ n.store.objectsById.lookup key = some o := by
    intro key o ho
    rw [hcreated.store] at ho
    exact (lookup_insert_cases ho).imp_right And.right
  -- an id of the new object is fresh, so no other object has it
  have hnew : ∀ {key o}, n.store.objectsById.lookup key = some o →
      ∀ id ∈ obj.chunks.map ChunkInfo.chunkId, id ∉ o.chunks.map ChunkInfo.chunkId :=
    fun ho id hid hid' => hcreated.fresh id (List.mem_cons_of_mem _ hid)
      (h.drawn ho id (List.mem_cons_of_mem _ hid')).1
  refine ⟨?_, fun ho => ?_, fun ho ho' id hid hid' => ?_, fun ho id hid => ?_⟩
  · have hfresh : obj.objectId ∉ n.store.objectsById := by
      intro hmem
      obtain ⟨o, ho⟩ := Finmap.mem_iff.mp hmem
      refine hcreated.fresh _ List.mem_cons_self ?_
      rw [← h.indexed.keyed ho]
      exact (h.drawn ho _ List.mem_cons_self).1
    rw [hcreated.store]
    exact h.indexed.insert hfresh (hcreated.filename ▸ hcreated.free)
  · rcases hold ho with ⟨-, rfl⟩ | ho
    · exact (List.nodup_cons.mp hcreated.nodup).2
    · exact h.nodup ho
  · rcases hold ho with ⟨rfl, rfl⟩ | ho
    · rcases hold ho' with ⟨rfl, rfl⟩ | ho'
      · rfl
      · exact absurd hid' (hnew ho' id hid)
    · rcases hold ho' with ⟨rfl, rfl⟩ | ho'
      · exact absurd hid (hnew ho id hid')
      · exact h.disjoint ho ho' id hid hid'
  · rw [hcreated.issued]
    rcases hold ho with ⟨-, rfl⟩ | ho
    · exact ⟨List.mem_append_left _ hid, hcreated.id_length hid⟩
    · obtain ⟨hissued, hlength⟩ := h.drawn ho id hid
      exact ⟨List.mem_append_right _ hissued, hlength⟩

theorem serve (h : n.ChunkIds) {cfg : ClusterConfig} {q : MetadataRpc} {r : q.Reply}
    (hserves : Serves cfg q n r n') : n'.ChunkIds := by
  rcases hserves.change.retains with ⟨req, obj, -, hcreated⟩ | ⟨hretains, hissued⟩
  · exact h.create hcreated
  · refine h.retain ?_ hretains hissued
    cases hserves.change with
    | same hobjects _ => exact h.indexed.same hobjects
    | created _ hcreated => exact (h.create hcreated).indexed
    | deleted _ _ hn => exact hn ▸ h.indexed.delete _
    | updated _ hobj _ hn =>
      subst hn
      refine ⟨fun {key obj'} hobj' => ?_, h.indexed.inverse.replace hobj rfl⟩
      obtain ⟨o, ho, hid, -⟩ := hretains hobj'
      exact hid.trans (h.indexed.keyed ho)

/-- A chunk is found under the key of its object by its id. -/
theorem chunk_unique (h : n.ChunkIds) {key key' : Str} {obj obj' : ObjectInfo}
    (hobj : n.store.objectsById.lookup key = some obj)
    (hobj' : n.store.objectsById.lookup key' = some obj') {c c' : ChunkInfo}
    (hc : c ∈ obj.chunks) (hc' : c' ∈ obj'.chunks) (hid : c.chunkId = c'.chunkId) :
    key = key' ∧ obj = obj' ∧ c = c' := by
  obtain rfl := h.disjoint hobj hobj' c.chunkId (List.mem_map_of_mem hc)
    (hid ▸ List.mem_map_of_mem hc')
  rw [hobj] at hobj'
  cases hobj'
  exact ⟨rfl, rfl, List.inj_on_of_nodup_map (h.nodup hobj) hc hc' hid⟩

end MetadataNode.ChunkIds

section Delivery

variable {P ι α : Type} [DecidableEq P] [DecidableEq ι] {svc : ClusterConfig}
  {reach : Str → Option ι}

omit [DecidableEq P] in
theorem delivers_chunkIds {c c' : Cluster ι} {q : Rpc} {fate : Fate} {r : Option q.Reply}
    (h : Delivers (Cluster.Serves svc reach) q fate c r c') (hids : c.metadata.ChunkIds) :
    c'.metadata.ChunkIds :=
  delivers_metadata_keeps (fun _ hserves hids => hids.serve hserves) h hids

theorem run_chunkIds {t t' : Threads P Rpc Rpc.Reply (Cluster ι) α}
    {trace : List (Transition (Threads P Rpc Rpc.Reply (Cluster ι) α) (Action P Rpc Rpc.Reply))}
    (hrun : Run (Threads.Step (Cluster.Serves svc reach)) t trace t')
    (hids : t.state.metadata.ChunkIds) : t'.state.metadata.ChunkIds :=
  @Run.invariant _ _ _ (fun t => t.state.metadata.ChunkIds)
    (fun _ _ _ hstep h => delivers_chunkIds hstep.delivers h) _ _ _ hrun hids

end Delivery

/-! ## The stored chunks -/

/-- The object under this key has the chunk. -/
def MetadataNode.Holds (n : MetadataNode) (key : Str) (chunk : ChunkInfo) : Prop :=
  ∃ obj, n.store.objectsById.lookup key = some obj ∧ chunk ∈ obj.chunks

namespace MetadataNode

variable {n n' : MetadataNode}

theorem ChunkIds.holds_unique (h : n.ChunkIds) {key key' : Str} {c c' : ChunkInfo}
    (hc : n.Holds key c) (hc' : n.Holds key' c') (hid : c.chunkId = c'.chunkId) :
    key = key' ∧ c = c' := by
  obtain ⟨obj, hobj, hmem⟩ := hc
  obtain ⟨obj', hobj', hmem'⟩ := hc'
  obtain ⟨hkey, -, hsame⟩ := h.chunk_unique hobj hobj' hmem hmem' hid
  exact ⟨hkey, hsame⟩

/-- The id of a stored chunk fits its length prefix. -/
theorem ChunkIds.chunkId_length (h : n.ChunkIds) {key : Str} {c : ChunkInfo}
    (hc : n.Holds key c) : c.chunkId.length < 2 ^ 32 := by
  obtain ⟨obj, hobj, hmem⟩ := hc
  rw [(h.drawn hobj _ (List.mem_cons_of_mem _ (List.mem_map_of_mem hmem))).2]
  decide

theorem ChunkIds.key_length (h : n.ChunkIds) {key : Str} {c : ChunkInfo}
    (hc : n.Holds key c) : key.length < 2 ^ 32 := by
  obtain ⟨obj, hobj, -⟩ := hc
  rw [← h.indexed.keyed hobj, (h.drawn hobj _ List.mem_cons_self).2]
  decide

theorem holds_same (h : SameObjects n.store n'.store) {key : Str} {c : ChunkInfo} :
    n'.Holds key c ↔ n.Holds key c := by
  rw [Holds, Holds, h.1]

/-- The chunk with the id of `chunk` is replaced by it in its object, and all other chunks
stay. -/
structure Replaces (n n' : MetadataNode) (key : Str) (chunk : ChunkInfo) : Prop where
  old : ∃ c, n.Holds key c ∧ c.chunkId = chunk.chunkId
  holds : ∀ key' c, n'.Holds key' c ↔
    key' = key ∧ c = chunk ∨ n.Holds key' c ∧ c.chunkId ≠ chunk.chunkId
  nodes : n'.store.nodes = n.store.nodes

/-- `UpdateChunk` replaces a chunk that there is, and does nothing otherwise. -/
theorem ChunkIds.update_cases (h : n.ChunkIds) {cfg : ClusterConfig} {req : UpdateChunkRequest}
    {resp : StatusResponse} (hserves : Serves cfg (.updateChunk req) n resp n') :
    n.Replaces n' req.objectId req.chunk.fromProto ∨
      n' = n ∧ ¬∃ c, n.Holds req.objectId c ∧ c.chunkId = req.chunk.chunkId := by
  cases hserves with
  | updateChunk _ _ now =>
    rcases updateChunk_cases now n.store req.objectId req.chunk.fromProto with
      heq | ⟨obj, chunks, hobj, hreplace, heq⟩
    · refine .inr ⟨by simp only [MetadataService.updateChunk, heq], ?_⟩
      rintro ⟨c, ⟨obj, hobj, hmem⟩, hid⟩
      obtain ⟨chunks, hreplace⟩ := @replaceChunk_isSome req.chunk.fromProto c _ hmem hid
      simp [MetadataStore.updateChunk, hobj, hreplace] at heq
    · obtain ⟨before, old, after, hchunks, hid, hchunks'⟩ := replaceChunk_cases hreplace
      have hold : n.Holds req.objectId old := ⟨obj, hobj, by simp [hchunks]⟩
      have hnodup := h.nodup hobj
      rw [hchunks, List.map_append, List.map_cons, List.nodup_append, List.nodup_cons] at hnodup
      obtain ⟨-, ⟨hafter, -⟩, hbefore⟩ := hnodup
      refine .inl ⟨⟨old, hold, hid⟩, fun key c => ?_,
        by simp only [MetadataService.updateChunk, heq]⟩
      simp only [Holds, MetadataService.updateChunk, heq]
      constructor
      · rintro ⟨obj', hobj', hmem⟩
        rcases lookup_insert_cases hobj' with ⟨rfl, rfl⟩ | ⟨hkey, hobj'⟩
        · -- a chunk before or after the replaced one has another id
          have hmem' : c ∈ before ++ req.chunk.fromProto :: after := by rwa [← hchunks']
          rcases List.mem_append.mp hmem' with hc | hc
          · refine .inr ⟨⟨obj, hobj, by simp [hchunks, hc]⟩, ?_⟩
            rw [← hid]
            exact hbefore _ (List.mem_map_of_mem hc) _ List.mem_cons_self
          · rcases List.mem_cons.mp hc with rfl | hc
            · exact .inl ⟨rfl, rfl⟩
            · refine .inr ⟨⟨obj, hobj, by simp [hchunks, hc]⟩, fun hsame => hafter ?_⟩
              rw [hid, ← hsame]
              exact List.mem_map_of_mem hc
        · refine .inr ⟨⟨obj', hobj', hmem⟩, fun hsame => hkey ?_⟩
          exact (h.holds_unique ⟨obj', hobj', hmem⟩ hold (hsame.trans hid.symm)).1
      · rintro (⟨rfl, rfl⟩ | ⟨⟨obj', hobj', hmem⟩, hne⟩)
        · exact ⟨_, Finmap.lookup_insert _, by simp [hchunks']⟩
        · by_cases hkey : key = req.objectId
          · subst hkey
            rw [hobj] at hobj'
            cases hobj'
            refine ⟨_, Finmap.lookup_insert _, ?_⟩
            rw [hchunks, List.mem_append, List.mem_cons] at hmem
            rw [hchunks', List.mem_append, List.mem_cons]
            rcases hmem with hc | rfl | hc
            · exact .inl hc
            · exact absurd hid hne
            · exact .inr (.inr hc)
          · exact ⟨obj', by rw [Finmap.lookup_insert_of_ne _ hkey, hobj'], hmem⟩

/-- A call that neither creates nor deletes leaves all chunks, or replaces one. -/
theorem ChunkIds.holds_cases (h : n.ChunkIds) {cfg : ClusterConfig} {q : MetadataRpc}
    {r : q.Reply} (hserves : Serves cfg q n r n') (hcreate : ∀ req, q ≠ .createObject req)
    (hdelete : ∀ req, q ≠ .deleteObject req) :
    (∀ key c, n'.Holds key c ↔ n.Holds key c) ∨
      ∃ req, q = .updateChunk req ∧ n.Replaces n' req.objectId req.chunk.fromProto := by
  cases hserves.change with
  | same hobjects _ => exact .inl fun key c => holds_same hobjects
  | created hq _ => exact absurd hq (hcreate _)
  | deleted hq _ _ => exact absurd hq (hdelete _)
  | @updated req _ _ _ hq _ _ _ =>
    subst hq
    rcases h.update_cases hserves with hreplaces | ⟨rfl, -⟩
    · exact .inr ⟨req, rfl, hreplaces⟩
    · exact .inl fun key c => Iff.rfl

end MetadataNode

/-! ## The parent of a chunk -/

/-- Every chunk names the object that it belongs to. -/
def MetadataNode.Parented (n : MetadataNode) : Prop :=
  ∀ {key obj}, n.store.objectsById.lookup key = some obj →
    ∀ c ∈ obj.chunks, c.objectId = key

/-- An `UpdateChunk` call sends a chunk of the object that it names, as those of `put`
and of the repair passes do. -/
def MetadataRpc.OwnChunk : MetadataRpc → Prop
  | .updateChunk req => req.chunk.objectId = req.objectId
  | _ => True

/-- A storage call updates no chunk in the metadata. -/
def Rpc.OwnChunk : Rpc → Prop
  | .metadata q => q.OwnChunk
  | .storage _ _ => True

theorem MetadataNode.Parented.of_holds {n : MetadataNode} (h : n.Parented) {key : Str}
    {c : ChunkInfo} (hc : n.Holds key c) : c.objectId = key := by
  obtain ⟨obj, hobj, hmem⟩ := hc
  exact h hobj c hmem

theorem MetadataNode.parented_empty : Parented {} := fun h => by simp at h

/-- A chunk that is held after a call was held before, or is planned with a fresh id, or is
sent by the call in place of the one with its id. -/
theorem MetadataNode.holds_serve {cfg : ClusterConfig} {n n' : MetadataNode} {q : MetadataRpc}
    {r : q.Reply} (hserves : Serves cfg q n r n') {key : Str} {c : ChunkInfo}
    (hc : n'.Holds key c) :
    n.Holds key c ∨ (c.chunkId ∉ n.issued ∧ c.Planned key) ∨
      ∃ req old, q = .updateChunk req ∧ key = req.objectId ∧ c = req.chunk.fromProto ∧
        n.Holds key old ∧ old.chunkId = c.chunkId := by
  obtain ⟨obj', hobj', hmem⟩ := hc
  cases hserves.change with
  | same hobjects _ =>
    rw [hobjects.1] at hobj'
    exact .inl ⟨obj', hobj', hmem⟩
  | @created _ obj _ hcreated =>
    rw [hcreated.store] at hobj'
    rcases lookup_insert_cases hobj' with ⟨rfl, rfl⟩ | ⟨-, hobj'⟩
    · have hfresh := hcreated.fresh _ (List.mem_cons_of_mem _ (List.mem_map_of_mem hmem))
      exact .inr (.inl ⟨hfresh, hcreated.planned c hmem⟩)
    · exact .inl ⟨obj', hobj', hmem⟩
  | deleted _ _ hn =>
    subst hn
    exact .inl ⟨obj', objects_of_delete hobj', hmem⟩
  | @updated req obj chunks now hq hobj hreplace hn =>
    subst hn
    rcases lookup_insert_cases hobj' with ⟨rfl, rfl⟩ | ⟨-, hobj'⟩
    · obtain ⟨before, old, after, hchunks, hid, rfl⟩ := replaceChunk_cases hreplace
      rcases List.mem_append.mp hmem with hc | hc
      · exact .inl ⟨obj, hobj, by simp [hchunks, hc]⟩
      · rcases List.mem_cons.mp hc with rfl | hc
        · exact .inr (.inr ⟨req, old, hq, rfl, rfl, ⟨obj, hobj, by simp [hchunks]⟩, hid⟩)
        · exact .inl ⟨obj, hobj, by simp [hchunks, hc]⟩
    · exact .inl ⟨obj', hobj', hmem⟩

theorem MetadataNode.Parented.serve {n n' : MetadataNode} (h : n.Parented)
    {cfg : ClusterConfig} {q : MetadataRpc} {r : q.Reply} (hown : q.OwnChunk)
    (hserves : Serves cfg q n r n') : n'.Parented := by
  intro key obj' hobj' c hc
  rcases MetadataNode.holds_serve hserves ⟨obj', hobj', hc⟩ with
    hold | ⟨-, hplanned⟩ | ⟨req, old, rfl, rfl, rfl, -, -⟩
  · exact h.of_holds hold
  · exact hplanned.objectId
  · exact hown

/-- A program that sends own chunks only leaves every chunk with its parent, and no id to
two chunks. -/
theorem runs_parented {ι α : Type} [DecidableEq ι] {svc : ClusterConfig} {reach : Str → Option ι}
    {p : ClusterProg α} {c c' : Cluster ι} {trace : List (Event Rpc Rpc.Reply)} {a : α}
    (hrun : Runs (Cluster.Serves svc reach) p c trace a c') (hissues : p.Issues Rpc.OwnChunk)
    (hids : c.metadata.ChunkIds) (hparented : c.metadata.Parented) :
    c'.metadata.ChunkIds ∧ c'.metadata.Parented := by
  refine runs_metadata_keeps (I := fun n => n.ChunkIds ∧ n.Parented)
    (fun {q n resp n'} hq hserves hinv => ?_) hrun hissues ⟨hids, hparented⟩
  obtain ⟨hids, hparented⟩ := hinv
  exact ⟨hids.serve hserves, hparented.serve hq hserves⟩

/-! ## Reached states -/

/-- The metadata node after calls that are all allowed, from the start of the service. -/
def MetadataNode.Reached (cfg : ClusterConfig) (allowed : MetadataRpc → Prop)
    (n : MetadataNode) : Prop :=
  Relation.ReflTransGen (fun n n' => ∃ q r, allowed q ∧ Serves cfg q n r n') {} n

theorem MetadataNode.Reached.mono {cfg : ClusterConfig} {allowed allowed' : MetadataRpc → Prop}
    {n : MetadataNode} (h : n.Reached cfg allowed) (hall : ∀ q, allowed q → allowed' q) :
    n.Reached cfg allowed' := by
  induction h with
  | refl => exact .refl
  | tail _ hstep ih =>
    obtain ⟨q, r, hq, hserves⟩ := hstep
    exact ih.tail ⟨q, r, hall q hq, hserves⟩

theorem MetadataNode.Reached.chunkIds {cfg : ClusterConfig} {allowed : MetadataRpc → Prop}
    {n : MetadataNode} (h : n.Reached cfg allowed) : n.ChunkIds := by
  induction h with
  | refl => exact chunkIds_empty
  | tail _ hstep ih =>
    obtain ⟨q, r, -, hserves⟩ := hstep
    exact ih.serve hserves

theorem MetadataNode.Reached.parented {cfg : ClusterConfig} {n : MetadataNode}
    (h : n.Reached cfg MetadataRpc.OwnChunk) : n.Parented := by
  induction h with
  | refl => exact parented_empty
  | tail _ hstep ih =>
    obtain ⟨q, r, hown, hserves⟩ := hstep
    exact ih.serve hown hserves

end StorageEngine
