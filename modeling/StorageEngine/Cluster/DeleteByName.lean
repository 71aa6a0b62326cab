import StorageEngine.Cluster.ChunkIds
import StorageEngine.Lib.Atomic

/-!
# Deleting by name in two sections

`delete_object_by_filename` looks the name up under the read lock and deletes the object
that it has found under the write lock.  Between the two sections, any other call can have
its own.

* `Performs` is an operation of the store that is done at once, and `CallStep` is the store
  with the calls that are under way, one section at a time.
* `CallsInv`: the object that a call has found keeps its name as long as it is there, and no
  other object is ever stored under its id.
* `deleteByFilename_atomic`: to its callers the store is atomic.  A deletion takes effect
  with its second section, or along with the one that removed its object before.
-/

namespace StorageEngine

open Lib Lib.Atomic MetadataStore

/-! ## The operations -/

/-- The operations on the objects. -/
inductive StoreOp where
  | createObject (filename : Str) (size : UInt64) (replicationFactor : UInt32) (owner : Str)
      (chunkSizeBytes : UInt32)
  | deleteObject (objectId : Str)
  | deleteObjectByFilename (filename : Str)
  | updateChunk (objectId : Str) (chunk : ChunkInfo)
  | locateById (objectId : Str)
  | locateByFilename (filename : Str)

/-- What an operation returns. -/
inductive StoreResult where
  | object (obj : Option ObjectInfo)
  | ok (ok : Bool)

/-- The ids that are drawn for an object. -/
def drawnFor : Option ObjectInfo → List Str
  | none => []
  | some obj => obj.objectId :: obj.chunks.map ChunkInfo.chunkId

/-- The operation is done at once, on a node that draws ids with `generate_uuid`, which
never repeats one. -/
inductive Performs : StoreOp → MetadataNode → StoreResult → MetadataNode → Prop where
  | createObject {n : MetadataNode} {uuid : ℕ → Str} {now : TimestampMs} {filename owner : Str}
      {size : UInt64} {replicationFactor chunkSizeBytes : UInt32} {result : Option ObjectInfo}
      {store : MetadataStore} (hfresh : ∀ id ∈ drawnFor result, id ∉ n.issued)
      (hcreate : n.store.createObject uuid now filename size replicationFactor owner
        chunkSizeBytes = some (result, store)) :
      Performs (.createObject filename size replicationFactor owner chunkSizeBytes) n
        (.object result) ⟨store, drawnFor result ++ n.issued⟩
  | deleteObject (n : MetadataNode) (objectId : Str) :
      Performs (.deleteObject objectId) n (.ok (n.store.deleteObject objectId).1)
        { n with store := (n.store.deleteObject objectId).2 }
  | deleteObjectByFilename (n : MetadataNode) (filename : Str) :
      Performs (.deleteObjectByFilename filename) n
        (.ok (n.store.deleteObjectByFilename filename).1)
        { n with store := (n.store.deleteObjectByFilename filename).2 }
  | updateChunk (n : MetadataNode) (now : TimestampMs) (objectId : Str) (chunk : ChunkInfo) :
      Performs (.updateChunk objectId chunk) n (.ok (n.store.updateChunk now objectId chunk).1)
        { n with store := (n.store.updateChunk now objectId chunk).2 }
  | locateById (n : MetadataNode) (objectId : Str) :
      Performs (.locateById objectId) n (.object (n.store.locateById objectId)) n
  | locateByFilename (n : MetadataNode) (filename : Str) :
      Performs (.locateByFilename filename) n (.object (n.store.locateByFilename filename)) n

/-! ## The sections -/

/-- How far a call has come: a deletion by name has found an object after its first
section. -/
inductive CallStage where
  | waiting (op : StoreOp)
  | found (filename objectId : Str)
  | done (result : StoreResult)
  | returned

/-- The metadata store with its calls, in the order of their invocations. -/
structure StoreCalls where
  node : MetadataNode
  calls : List CallStage := []

/-- The first section of `delete_object_by_filename`. -/
def lookupSection (s : MetadataStore) (filename : Str) : CallStage :=
  match s.filenameToId.lookup filename with
  | none => .done (.ok false)
  | some objectId => .found filename objectId

/-- One step: a call is invoked or returns, or it has one of its locked sections.  All
operations but the deletion by name have one section. -/
inductive CallStep : StoreCalls → Option (Action StoreOp StoreResult) → StoreCalls → Prop where
  | invoke (s : StoreCalls) (op : StoreOp) :
      CallStep s (some (.invoke s.calls.length op)) { s with calls := s.calls ++ [.waiting op] }
  | perform {n n' : MetadataNode} {before after : List CallStage} {op : StoreOp}
      {result : StoreResult} (hop : ∀ filename, op ≠ .deleteObjectByFilename filename)
      (hperforms : Performs op n result n') :
      CallStep ⟨n, before ++ .waiting op :: after⟩ none ⟨n', before ++ .done result :: after⟩
  | lookup (n : MetadataNode) (before after : List CallStage) (filename : Str) :
      CallStep ⟨n, before ++ .waiting (.deleteObjectByFilename filename) :: after⟩ none
        ⟨n, before ++ lookupSection n.store filename :: after⟩
  | delete (n : MetadataNode) (before after : List CallStage) (filename objectId : Str) :
      CallStep ⟨n, before ++ .found filename objectId :: after⟩ none
        ⟨{ n with store := (n.store.deleteObject objectId).2 },
          before ++ .done (.ok (n.store.deleteObject objectId).1) :: after⟩
  | respond (n : MetadataNode) (before after : List CallStage) (result : StoreResult) :
      CallStep ⟨n, before ++ .done result :: after⟩ (some (.respond before.length result))
        ⟨n, before ++ .returned :: after⟩

/-! ## What an operation does to the objects -/

/-- The two indexes agree, and the ids of the objects have been drawn. -/
structure MetadataNode.Drawn (n : MetadataNode) : Prop where
  indexed : Indexed n.store
  issued : ∀ id ∈ n.store.objectsById, id ∈ n.issued

theorem MetadataNode.ChunkIds.drawn_ids {n : MetadataNode} (h : n.ChunkIds) : n.Drawn where
  indexed := h.indexed
  issued id hid := by
    obtain ⟨obj, hobj⟩ := Finmap.mem_iff.mp hid
    rw [← h.indexed.keyed hobj]
    exact (h.drawn hobj _ List.mem_cons_self).1

/-- Ids that have been drawn are not drawn again: what is stored under one of them has been
there before, under the same name.  When it goes, its name goes with it. -/
structure Ages (n n' : MetadataNode) : Prop where
  issued : ∀ id ∈ n.issued, id ∈ n'.issued
  kept : ∀ id ∈ n.issued, ∀ obj', n'.store.objectsById.lookup id = some obj' →
    ∃ obj, n.store.objectsById.lookup id = some obj ∧ obj.filename = obj'.filename
  removed : ∀ id obj, n.store.objectsById.lookup id = some obj →
    id ∉ n'.store.objectsById → obj.filename ∉ n'.store.filenameToId

theorem Ages.of_same {n n' : MetadataNode} (hobjects : SameObjects n.store n'.store)
    (hissued : n'.issued = n.issued) : Ages n n' where
  issued id hid := hissued ▸ hid
  kept id _ obj' hobj' := by
    rw [hobjects.1] at hobj'
    exact ⟨obj', hobj', rfl⟩
  removed id obj hobj hgone := by
    rw [hobjects.1] at hgone
    exact absurd (Finmap.mem_of_lookup_eq_some hobj) hgone

theorem Ages.delete (n : MetadataNode) (objectId : Str) :
    Ages n { n with store := (n.store.deleteObject objectId).2 } := by
  rcases deleteObject_cases n.store objectId with ⟨hsame, -⟩ | ⟨obj, hobj, hdelete⟩
  · rw [hsame]
    exact .of_same ⟨rfl, rfl⟩ rfl
  · rw [hdelete]
    refine ⟨fun id hid => hid, fun id _ obj' hobj' => ?_, fun id old hold hgone => ?_⟩
    · exact ⟨obj', (lookup_erase_cases hobj').2, rfl⟩
    · have hid : id = objectId := by
        by_contra hne
        apply hgone
        rw [← Finmap.lookup_isSome]
        show ((n.store.objectsById.erase objectId).lookup id).isSome
        rw [Finmap.lookup_erase_ne hne, hold]
        rfl
      rw [hid, hobj] at hold
      cases hold
      exact Finmap.notMem_erase_self

theorem Performs.ages {op : StoreOp} {n n' : MetadataNode} {result : StoreResult}
    (h : Performs op n result n') : Ages n n' := by
  cases h with
  | createObject hfresh hcreate =>
    rcases createObject_cases hcreate with ⟨hresult, hstore, -⟩ | ⟨chunks, -, -, hresult, hstore⟩
    · subst hresult hstore
      exact .of_same ⟨rfl, rfl⟩ rfl
    · subst hresult hstore
      refine ⟨fun id hid => List.mem_append_right _ hid, fun id hid obj' hobj' => ?_,
        fun id obj hobj hgone => ?_⟩
      · rcases lookup_insert_cases hobj' with ⟨hnew, -⟩ | ⟨-, hold⟩
        · rw [hnew] at hid
          exact absurd hid (hfresh _ List.mem_cons_self)
        · exact ⟨obj', hold, rfl⟩
      · refine absurd ?_ hgone
        rw [Finmap.mem_insert]
        exact .inr (Finmap.mem_of_lookup_eq_some hobj)
  | deleteObject => exact .delete n _
  | deleteObjectByFilename _ filename =>
    rcases deleteObjectByFilename_cases n.store filename with heq | ⟨objectId, -, heq⟩
    · rw [heq]
      exact .of_same ⟨rfl, rfl⟩ rfl
    · rw [heq]
      exact .delete n objectId
  | updateChunk _ now objectId chunk =>
    rcases updateChunk_cases now n.store objectId chunk with hsame | ⟨obj, chunks, hobj, -, hupdate⟩
    · rw [hsame]
      exact .of_same ⟨rfl, rfl⟩ rfl
    · rw [hupdate]
      refine ⟨fun id hid => hid, fun id _ obj' hobj' => ?_, fun id old hold hgone => ?_⟩
      · rcases lookup_insert_cases hobj' with ⟨hid, hsame⟩ | ⟨-, hold⟩
        · rw [hid, hsame]
          exact ⟨obj, hobj, rfl⟩
        · exact ⟨obj', hold, rfl⟩
      · refine absurd ?_ hgone
        rw [Finmap.mem_insert]
        exact .inr (Finmap.mem_of_lookup_eq_some hold)
  | locateById => exact .of_same ⟨rfl, rfl⟩ rfl
  | locateByFilename => exact .of_same ⟨rfl, rfl⟩ rfl

theorem MetadataNode.Drawn.delete {n : MetadataNode} (h : n.Drawn) (objectId : Str) :
    Drawn { n with store := (n.store.deleteObject objectId).2 } where
  indexed := h.indexed.delete objectId
  issued id hid := by
    obtain ⟨obj, hobj⟩ := Finmap.mem_iff.mp hid
    exact h.issued id (Finmap.mem_of_lookup_eq_some (objects_of_delete hobj))

theorem Performs.drawn {op : StoreOp} {n n' : MetadataNode} {result : StoreResult}
    (h : Performs op n result n') (hdrawn : n.Drawn) : n'.Drawn := by
  cases h with
  | createObject hfresh hcreate =>
    rcases createObject_cases hcreate with ⟨hresult, hstore, -⟩ | ⟨chunks, -, -, hresult, hstore⟩
    · subst hresult hstore
      exact hdrawn
    · have hunused : ∀ id ∈ drawnFor _, id ∉ n.store.objectsById := fun id hid hmem =>
        hfresh id hid (hdrawn.issued id hmem)
      subst hresult
      refine ⟨hdrawn.indexed.create (hunused _ List.mem_cons_self) hcreate, fun id hid => ?_⟩
      rw [hstore, Finmap.mem_insert] at hid
      rcases hid with hnew | hold
      · rw [hnew]
        exact List.mem_append_left _ List.mem_cons_self
      · exact List.mem_append_right _ (hdrawn.issued id hold)
  | deleteObject => exact hdrawn.delete _
  | deleteObjectByFilename _ filename =>
    rcases deleteObjectByFilename_cases n.store filename with heq | ⟨objectId, -, heq⟩
    · rw [heq]
      exact hdrawn
    · rw [heq]
      exact hdrawn.delete objectId
  | updateChunk _ now objectId chunk =>
    refine ⟨hdrawn.indexed.update now objectId chunk, fun id hid => ?_⟩
    rcases updateChunk_cases now n.store objectId chunk with hsame | ⟨obj, chunks, hobj, -, hupdate⟩
    · rw [hsame] at hid
      exact hdrawn.issued id hid
    · rw [hupdate, Finmap.mem_insert] at hid
      rcases hid with hid | hold
      · rw [hid]
        exact hdrawn.issued _ (Finmap.mem_of_lookup_eq_some hobj)
      · exact hdrawn.issued id hold
  | locateById => exact hdrawn
  | locateByFilename => exact hdrawn

/-! ## The calls that are under way -/

/-- The id that a call has found was drawn, and no object is stored under it but one with
the name that was looked up. -/
def FoundUnder (n : MetadataNode) (stage : CallStage) : Prop :=
  ∀ filename id, stage = .found filename id → id ∈ n.issued ∧
    ∀ obj, n.store.objectsById.lookup id = some obj → obj.filename = filename

/-- The invariant of the store and its calls. -/
structure CallsInv (s : StoreCalls) : Prop where
  drawn : s.node.Drawn
  found : ∀ stage ∈ s.calls, FoundUnder s.node stage

theorem FoundUnder.ages {n n' : MetadataNode} {stage : CallStage} (h : FoundUnder n stage)
    (hages : Ages n n') : FoundUnder n' stage := by
  intro filename id hstage
  obtain ⟨hissued, hname⟩ := h filename id hstage
  refine ⟨hages.issued id hissued, fun obj' hobj' => ?_⟩
  obtain ⟨obj, hobj, hsame⟩ := hages.kept id hissued obj' hobj'
  rw [← hsame]
  exact hname obj hobj

/-- A call takes its next stage, and the others stay at theirs. -/
theorem CallsInv.advance {n n' : MetadataNode} {before after : List CallStage}
    {stage stage' : CallStage} (h : CallsInv ⟨n, before ++ stage :: after⟩) (hages : Ages n n')
    (hdrawn : n'.Drawn) (hstage : FoundUnder n' stage') :
    CallsInv ⟨n', before ++ stage' :: after⟩ where
  drawn := hdrawn
  found other hother := by
    rw [List.mem_append, List.mem_cons] at hother
    have hold : ∀ other ∈ before ++ stage :: after, FoundUnder n' other := fun other hmem =>
      (h.found other hmem).ages hages
    rcases hother with hbefore | hsame | hafter
    · exact hold other (List.mem_append_left _ hbefore)
    · rw [hsame]
      exact hstage
    · exact hold other (List.mem_append_right _ (List.mem_cons_of_mem _ hafter))

theorem foundUnder_done (n : MetadataNode) (result : StoreResult) :
    FoundUnder n (.done result) := by
  intro filename id hstage
  cases hstage

theorem foundUnder_lookup {n : MetadataNode} (h : n.Drawn) (filename : Str) :
    FoundUnder n (lookupSection n.store filename) := by
  intro name id hstage
  unfold lookupSection at hstage
  split at hstage
  · cases hstage
  · next objectId hname =>
    cases hstage
    obtain ⟨obj, hobj, hfilename⟩ := h.indexed.inverse.pointed hname
    refine ⟨h.issued _ (Finmap.mem_of_lookup_eq_some hobj), fun obj' hobj' => ?_⟩
    rw [hobj] at hobj'
    cases hobj'
    exact hfilename

theorem CallsInv.step {s s' : StoreCalls} {l : Option (Action StoreOp StoreResult)}
    (hstep : CallStep s l s') (h : CallsInv s) : CallsInv s' := by
  have hsame : Ages s.node s.node := .of_same ⟨rfl, rfl⟩ rfl
  cases hstep with
  | invoke =>
    refine ⟨h.drawn, fun stage hstage => ?_⟩
    rcases List.mem_append.mp hstage with hold | hnew
    · exact h.found stage hold
    · rw [List.mem_singleton.mp hnew]
      intro filename id hwaiting
      cases hwaiting
  | perform hop hperforms =>
    exact h.advance hperforms.ages (hperforms.drawn h.drawn) (foundUnder_done _ _)
  | lookup n before after filename =>
    exact h.advance hsame h.drawn (foundUnder_lookup h.drawn filename)
  | delete n before after filename objectId =>
    exact h.advance (.delete n objectId) (h.drawn.delete objectId) (foundUnder_done _ _)
  | respond n before after result =>
    refine h.advance hsame h.drawn ?_
    intro filename id hreturned
    cases hreturned

/-! ## The refinement -/

/-- How far a call has come in the run of the atomic store.  A deletion whose object is gone
has taken effect: its name is free. -/
def view (n : MetadataNode) : CallStage → Stage StoreOp StoreResult
  | .waiting op => .waiting op
  | .found filename objectId =>
    if objectId ∈ n.store.objectsById then .waiting (.deleteObjectByFilename filename)
    else .decided (.ok false)
  | .done result => .decided result
  | .returned => .returned

theorem performs_absent {n : MetadataNode} {filename : Str}
    (habsent : filename ∉ n.store.filenameToId) :
    Performs (.deleteObjectByFilename filename) n (.ok false) n := by
  have hperforms := Performs.deleteObjectByFilename n filename
  rw [deleteObjectByFilename_unknown habsent] at hperforms
  exact hperforms

/-- When the store ages, the deletions whose object goes take effect right behind. -/
theorem view_settles {n n' : MetadataNode} {stage : CallStage} (hfound : FoundUnder n stage)
    (hages : Ages n n') :
    view n stage = view n' stage ∨ ∃ op result, view n stage = .waiting op ∧
      view n' stage = .decided result ∧ Performs op n' result n' := by
  cases stage with
  | waiting op => exact .inl rfl
  | done result => exact .inl rfl
  | returned => exact .inl rfl
  | found filename objectId =>
    obtain ⟨hissued, hname⟩ := hfound filename objectId rfl
    unfold view
    dsimp only
    by_cases hpresent : objectId ∈ n.store.objectsById
    · rw [if_pos hpresent]
      by_cases hpresent' : objectId ∈ n'.store.objectsById
      · rw [if_pos hpresent']
        exact .inl rfl
      · obtain ⟨obj, hobj⟩ := Finmap.mem_iff.mp hpresent
        have hfree := hages.removed objectId obj hobj hpresent'
        rw [hname obj hobj] at hfree
        rw [if_neg hpresent']
        exact .inr ⟨_, _, rfl, rfl, performs_absent hfree⟩
    · have hgone : objectId ∉ n'.store.objectsById := by
        intro hmem
        obtain ⟨obj', hobj'⟩ := Finmap.mem_iff.mp hmem
        obtain ⟨obj, hobj, -⟩ := hages.kept objectId hissued obj' hobj'
        exact hpresent (Finmap.mem_of_lookup_eq_some hobj)
      rw [if_neg hpresent, if_neg hgone]
      exact .inl rfl

/-- The effect of one call on the atomic store, and those of the deletions whose object it
has removed. -/
theorem run_effect {n n' : MetadataNode} {before after : List CallStage} {stage : CallStage}
    {op : StoreOp} {result : StoreResult} (hfound : ∀ stage ∈ before ++ after, FoundUnder n stage)
    (hstage : view n stage = .waiting op) (hperforms : Performs op n result n') :
    ∃ trace, Run (Atomic.Step Performs) (n, (before ++ stage :: after).map (view n)) trace
        (n', (before ++ CallStage.done result :: after).map (view n')) ∧
      visible trace = [] := by
  have heffect : Atomic.Step Performs (n, (before ++ stage :: after).map (view n)) none
      (n', (before ++ CallStage.done result :: after).map (view n)) := by
    rw [List.map_append, List.map_append, List.map_cons, List.map_cons, hstage]
    exact .effect hperforms
  have hsettles : ∀ other ∈ before ++ CallStage.done result :: after,
      view n other = view n' other ∨ ∃ op result, view n other = .waiting op ∧
        view n' other = .decided result ∧ Performs op n' result n' := by
    intro other hother
    rw [List.mem_append, List.mem_cons] at hother
    rcases hother with hbefore | hsame | hafter
    · exact view_settles (hfound other (List.mem_append_left _ hbefore)) hperforms.ages
    · rw [hsame]
      exact .inl rfl
    · exact view_settles (hfound other (List.mem_append_right _ hafter)) hperforms.ages
  exact run_trans (run_step heffect) (run_settles hsettles [])

/-- What holds of all calls holds of all but one. -/
theorem found_others {n : MetadataNode} {before after : List CallStage} {stage : CallStage}
    (h : ∀ other ∈ before ++ stage :: after, FoundUnder n other) :
    ∀ other ∈ before ++ after, FoundUnder n other := by
  intro other hother
  refine h other ?_
  rw [List.mem_append] at hother ⊢
  exact hother.imp_right (List.mem_cons_of_mem _)

/-- The atomic store matches each step of the store with its calls. -/
theorem view_step {s s' : StoreCalls} {l : Option (Action StoreOp StoreResult)}
    (hstep : CallStep s l s') (h : CallsInv s) :
    ∃ trace, Run (Atomic.Step Performs) (s.node, s.calls.map (view s.node)) trace
        (s'.node, s'.calls.map (view s'.node)) ∧ visible trace = l.toList := by
  cases hstep with
  | invoke _ op =>
    have hinvoke : Atomic.Step Performs _ _ _ := .invoke s.node (s.calls.map (view s.node)) op
    rw [List.length_map] at hinvoke
    rw [List.map_append]
    exact run_step hinvoke
  | @perform n n' before after op result hop hperforms =>
    exact run_effect (found_others h.found) rfl hperforms
  | lookup n before after filename =>
    cases hname : n.store.filenameToId.lookup filename with
    | none =>
      have hsection : lookupSection n.store filename = .done (.ok false) := by
        rw [lookupSection, hname]
      rw [hsection]
      exact run_effect (found_others h.found) rfl
        (performs_absent (Finmap.lookup_eq_none.mp hname))
    | some objectId =>
      have hsection : lookupSection n.store filename = .found filename objectId := by
        rw [lookupSection, hname]
      obtain ⟨obj, hobj, -⟩ := h.drawn.indexed.inverse.pointed hname
      have hview : view n (.found filename objectId) =
          .waiting (.deleteObjectByFilename filename) :=
        if_pos (Finmap.mem_of_lookup_eq_some hobj)
      rw [hsection, List.map_append, List.map_append, List.map_cons, List.map_cons, hview]
      exact run_refl _
  | delete n before after filename objectId =>
    obtain ⟨hissued, hfilename⟩ := h.found (.found filename objectId)
      (List.mem_append_right _ List.mem_cons_self) filename objectId rfl
    rcases deleteObject_cases n.store objectId with ⟨hdelete, hgone⟩ | ⟨obj, hobj, hdelete⟩
    · -- the object is gone, and the call has taken effect when it went
      rw [hdelete, List.map_append, List.map_append, List.map_cons, List.map_cons, view,
        if_neg hgone]
      exact run_refl _
    · have hname : n.store.filenameToId.lookup filename = some objectId := by
        rw [← hfilename obj hobj]
        exact h.drawn.indexed.inverse.indexed hobj
      have hperforms := Performs.deleteObjectByFilename n filename
      rw [deleteObjectByFilename_found hname] at hperforms
      have hview : view n (.found filename objectId) =
          .waiting (.deleteObjectByFilename filename) :=
        if_pos (Finmap.mem_of_lookup_eq_some hobj)
      exact run_effect (found_others h.found) hview hperforms
  | respond n before after result =>
    have hrespond : Atomic.Step Performs _ _ _ :=
      .respond n (before.map (view n)) (after.map (view n)) result
    rw [List.length_map] at hrespond
    rw [List.map_append, List.map_append]
    exact run_step hrespond

/-! ## Atomicity -/

theorem CallStep.ages {s s' : StoreCalls} {l : Option (Action StoreOp StoreResult)}
    (h : CallStep s l s') : Ages s.node s'.node := by
  cases h with
  | perform hop hperforms => exact hperforms.ages
  | delete n before after filename objectId => exact .delete n objectId
  | invoke => exact .of_same ⟨rfl, rfl⟩ rfl
  | lookup => exact .of_same ⟨rfl, rfl⟩ rfl
  | respond => exact .of_same ⟨rfl, rfl⟩ rfl

/-- An id that has been drawn is not that of an object which is created later. -/
theorem created_ne {s t : StoreCalls}
    {later : List (Transition StoreCalls (Option (Action StoreOp StoreResult)))} {objectId : Str}
    (hissued : objectId ∈ s.node.issued) (hrun : Run CallStep s later t) :
    ∀ u ∈ later, ∀ id, id ∉ u.source.node.store.objectsById →
      id ∈ u.target.node.store.objectsById → id ≠ objectId := by
  intro u hu id hnew hcreated hsame
  have hkept : ∀ (s : StoreCalls) l s', CallStep s l s' → objectId ∈ s.node.issued →
      objectId ∈ s'.node.issued := by
    intro s l s' hstep hid
    exact hstep.ages.issued objectId hid
  have hissued_before := hrun.invariant_source hkept hissued u hu
  obtain ⟨obj', hobj'⟩ := Finmap.mem_iff.mp hcreated
  rw [hsame] at hnew hobj'
  obtain ⟨obj, hobj, -⟩ := hissued_before.2.ages.kept objectId hissued_before.1 obj' hobj'
  exact hnew (Finmap.mem_of_lookup_eq_some hobj)

theorem Drawn.calls {n : MetadataNode} (h : n.Drawn) : CallsInv ⟨n, []⟩ where
  drawn := h
  found _ hstage := absurd hstage List.not_mem_nil

/-- To its callers the store is atomic, deletions by name included, whatever calls have
their sections in between.  The second section of a deletion by name leaves every object
that was created after its first one. -/
theorem deleteByFilename_atomic {cfg : ClusterConfig} {n : MetadataNode}
    (hreached : n.Reached cfg fun _ => True) :
    Linearizes Performs CallStep StoreCalls.node ⟨n, []⟩ ∧
      ∀ first s filename objectId, Run CallStep ⟨n, []⟩ first s →
        .found filename objectId ∈ s.calls →
        ∀ later t, Run CallStep s later t → ∀ u ∈ later, ∀ id,
          id ∉ u.source.node.store.objectsById → id ∈ u.target.node.store.objectsById →
          (t.node.store.deleteObject objectId).2.objectsById.lookup id =
            t.node.store.objectsById.lookup id := by
  have hstart : CallsInv ⟨n, []⟩ := Drawn.calls hreached.chunkIds.drawn_ids
  constructor
  · exact linearizes_of_refinement (fun s => s.calls.map (view s.node)) hstart rfl
      (fun _ _ _ hstep h => h.step hstep) (fun _ _ _ hstep h => view_step hstep h)
  · intro first s filename objectId hfirst hfound later t hlater u hu id hnew hcreated
    have hinv : CallsInv s := hfirst.invariant (fun _ _ _ hstep h => h.step hstep) hstart
    have hissued := (hinv.found _ hfound filename objectId rfl).1
    have hne := created_ne hissued hlater u hu id hnew hcreated
    rcases deleteObject_cases t.node.store objectId with ⟨hsame, -⟩ | ⟨obj, -, hdelete⟩
    · rw [hsame]
    · rw [hdelete]
      exact Finmap.lookup_erase_ne hne

/-- A deletion by name in an empty store: it finds nothing, and has taken effect before it
returns. -/
theorem deleteByFilename_atomic_empty :
    ∃ trace calls, Run (Atomic.Step Performs) ({}, []) trace ({}, calls) ∧
      visible trace = [.invoke 0 (.deleteObjectByFilename (str "a")), .respond 0 (.ok false)] := by
  have hinvoke := CallStep.invoke ⟨{}, []⟩ (.deleteObjectByFilename (str "a"))
  have hlookup := CallStep.lookup {} [] [] (str "a")
  have hrespond := CallStep.respond {} [] [] (.ok false)
  exact (@deleteByFilename_atomic {} {} .refl).1 _ _
    (.head hinvoke (.head hlookup (.head hrespond (.refl _))))

end StorageEngine
