import StorageEngine.Client.PutRun

/-!
# A put that fails

`put` creates the object first and uploads the chunks after that.  When the
quorum of a chunk fails it deletes the object again, but when the nodes cannot be
selected it returns at once.  So a failed put leaves the objects as they were
exactly when the selection of nodes has not failed.
-/

namespace StorageEngine.StorageClient

open Lib Lib.Remote MetadataStore

variable {ι : Type} [DecidableEq ι] {svc cfg : ClusterConfig} {reach : Str → Option ι}

/-- The object is still there, under the same name, and no other object and no
name has changed. -/
structure Touched (objectId filename : Str) (s s' : MetadataStore) : Prop where
  present : ∃ o, s'.objectsById.lookup objectId = some o ∧ o.filename = filename
  others : s'.objectsById.erase objectId = s.objectsById.erase objectId
  names : s'.filenameToId = s.filenameToId

theorem touched_of_sameObjects {objectId filename : Str} {s s' s'' : MetadataStore}
    (h : Touched objectId filename s s') (hsame : SameObjects s' s'') :
    Touched objectId filename s s'' := by
  obtain ⟨hobjects, hnames⟩ := hsame
  exact ⟨by rw [hobjects]; exact h.present, by rw [hobjects]; exact h.others,
    hnames.trans h.names⟩

theorem touched_updateChunk {objectId filename : Str} {s s' : MetadataStore}
    (h : Touched objectId filename s s') (now : TimestampMs) (chunk : ChunkInfo) :
    Touched objectId filename s (s'.updateChunk now objectId chunk).2 := by
  rcases updateChunk_cases now s' objectId chunk with heq | ⟨o, chunks, ho, -, heq⟩
  · rw [heq]
    exact h
  · obtain ⟨o', ho', hfilename⟩ := h.present
    rw [ho] at ho'
    cases ho'
    rw [heq]
    exact ⟨⟨_, Finmap.lookup_insert _, hfilename⟩,
      (erase_insert_self _ _ _).trans h.others, h.names⟩

/-- The deletion that cleans up removes the object and its name. -/
theorem deleteObject_touched {objectId filename : Str} {s s' : MetadataStore}
    (h : Touched objectId filename s s') :
    (s'.deleteObject objectId).2.objectsById = s.objectsById.erase objectId ∧
      (s'.deleteObject objectId).2.filenameToId = s.filenameToId.erase filename := by
  obtain ⟨o, ho, rfl⟩ := h.present
  rw [MetadataStore.deleteObject, ho]
  exact ⟨h.others, congrArg (Finmap.erase o.filename) h.names⟩

/-- The call creates or deletes an object. -/
def CreatesOrDeletes (e : Event Rpc Rpc.Reply) : Prop :=
  (∃ req, e.request = .metadata (.createObject req)) ∨
    ∃ req, e.request = .metadata (.deleteObject req)

private theorem not_selectFailed_of_storageOnly {trace : List (Event Rpc Rpc.Reply)}
    (h : StorageOnly trace) : ∀ e ∈ trace, ¬SelectFailed e := by
  rintro e he ⟨req, fate, rfl⟩
  obtain ⟨address, q, hq⟩ := h _ he
  cases hq

/-- A turn with an answered selection has no failed one. -/
theorem not_selectFailed_turn (req : SelectNodesRequest) (select : SelectNodesResponse)
    {writes : List (Event Rpc Rpc.Reply)} {last : Event Rpc Rpc.Reply}
    (hwrites : StorageOnly writes) (hlast : ¬SelectFailed last) :
    ∀ e ∈ (⟨.metadata (.selectNodes req), .answered, some select⟩ :
        Event Rpc Rpc.Reply) :: (writes ++ [last]), ¬SelectFailed e := by
  intro e he
  rcases List.mem_cons.mp he with rfl | he
  · rintro ⟨req, fate, heq⟩
    cases heq
  · rcases List.mem_append.mp he with he | he
    · exact not_selectFailed_of_storageOnly hwrites e he
    · rw [List.mem_singleton.mp he]
      exact hlast

/-- How the loop of `put` leaves the objects. -/
theorem putChunks_objects {data : Bytes} {obj : ObjectMetadata} (hid : obj.objectId ≠ [])
    (hobject : obj.objectId.length < 2 ^ 32) {filename : Str} {s : MetadataStore}
    {chunks : List ChunkMetadata} (hshort : ∀ c ∈ chunks, c.chunkId.length < 2 ^ 32)
    {offset : UInt64} {c c' : Cluster ι} {trace : List (Event Rpc Rpc.Reply)}
    {result : Option Str} (htouched : Touched obj.objectId filename s c.metadata.store)
    (hrun : Runs (Cluster.Serves svc reach) (putChunks cfg data obj chunks offset) c trace
      result c')
    (hanswered : ∀ e ∈ trace, CreatesOrDeletes e → e.fate = .answered) :
    (result = none ∧ ∀ e ∈ trace, ¬SelectFailed e) ∨
      (result ≠ none ∧ (∃ e ∈ trace, SelectFailed e) ∧
        ∃ o, c'.metadata.store.objectsById.lookup obj.objectId = some o) ∨
      result ≠ none ∧ (∀ e ∈ trace, ¬SelectFailed e) ∧
        c'.metadata.store.objectsById = s.objectsById.erase obj.objectId ∧
        c'.metadata.store.filenameToId = s.filenameToId.erase filename := by
  induction chunks generalizing offset c trace with
  | nil =>
    obtain ⟨rfl, rfl, rfl⟩ := runs_done.mp hrun
    exact .inl ⟨rfl, by simp⟩
  | cons chunkPb chunks ih =>
    obtain ⟨turn, c₁, first, rest, hfirst, hrest, rfl⟩ := runs_bind.mp hrun
    have hturn := putChunk_run (hshort chunkPb List.mem_cons_self) hobject hfirst
    cases hturn with
    | selectFailed message hfailed hobjects =>
      obtain ⟨rfl, rfl, rfl⟩ := runs_done.mp hrest
      obtain ⟨o, ho, -⟩ := (touched_of_sameObjects htouched hobjects).present
      exact .inr (.inl ⟨by simp, ⟨_, by simp, hfailed⟩, o, ho⟩)
    | @quorumFailed select writes progress c₂ _ fate r message hwrites huploaded _ hdelete =>
      obtain ⟨rfl, rfl, rfl⟩ := runs_done.mp hrest
      have hfate : fate = .answered := hanswered
        ⟨.metadata (.deleteObject { objectId := obj.objectId }), fate, r⟩ (by simp)
        (.inr ⟨_, rfl⟩)
      refine .inr (.inr ⟨by simp, ?_, ?_⟩)
      · rw [List.append_nil]
        refine not_selectFailed_turn _ _ hwrites ?_
        rintro ⟨req, fate', heq⟩
        cases heq
      · rcases delivers_metadata hdelete with ⟨h, -⟩ | ⟨-, -, resp, hserves, -, -⟩
        · rw [hfate] at h
          cases h
        · rw [hserves.delete_store hid]
          exact deleteObject_touched (touched_of_sameObjects htouched huploaded.objects)
    | @updated select writes progress c₂ _ fate req r hwrites huploaded _ hreq hupdate =>
      have htouched₂ := touched_of_sameObjects htouched huploaded.objects
      have htouched₁ : Touched obj.objectId filename s c₁.metadata.store := by
        rcases delivers_metadata hupdate with ⟨-, -, rfl⟩ | ⟨-, -, resp, hserves, -, -⟩
        · exact htouched₂
        · rw [hreq] at hserves
          obtain ⟨now, hstore⟩ := hserves.update_store
          rw [hstore]
          exact touched_updateChunk htouched₂ now _
      have hlast : ¬SelectFailed ⟨.metadata (.updateChunk req), fate, r⟩ := by
        rintro ⟨req, fate', heq⟩
        cases heq
      have hfirst' := not_selectFailed_turn { count := cfg.replicationFactor } select hwrites
        hlast
      rcases ih (fun c hc => hshort c (List.mem_cons_of_mem _ hc)) htouched₁ hrest
          (fun e he => hanswered e (List.mem_append_right _ he)) with
        ⟨hnone, hno⟩ | ⟨hsome, ⟨e, he, hfailed⟩, hpresent⟩ | ⟨hsome, hno, hrestored⟩
      · refine .inl ⟨hnone, fun e he => ?_⟩
        rcases List.mem_append.mp he with he | he
        · exact hfirst' e he
        · exact hno e he
      · exact .inr (.inl ⟨hsome, ⟨e, List.mem_append_right _ he, hfailed⟩, hpresent⟩)
      · refine .inr (.inr ⟨hsome, fun e he => ?_, hrestored⟩)
        rcases List.mem_append.mp he with he | he
        · exact hfirst' e he
        · exact hno e he

/-- A failed put leaves the objects as they were if and only if no selection of
nodes has failed, whatever happened to the other calls of its chunks. -/
theorem put_failure_restores_iff {filename owner : Str} {data : Bytes} {c c' : Cluster ι}
    {trace : List (Event Rpc Rpc.Reply)} {result : PutResult}
    (hissued : ∀ id ∈ c.metadata.store.objectsById, id ∈ c.metadata.issued)
    (hrun : Runs (Cluster.Serves svc reach) (put cfg filename data owner) c trace result c')
    (hanswered : ∀ e ∈ trace, CreatesOrDeletes e → e.fate = .answered) :
    (result.success = false → SameObjects c.metadata.store c'.metadata.store) ↔
      ∀ e ∈ trace, ¬SelectFailed e := by
  have hcreate : ∀ {req r}, ¬SelectFailed ⟨.metadata (.createObject req), .answered, r⟩ := by
    rintro req r ⟨select, fate, heq⟩
    cases heq
  cases put_run hrun with
  | @refused fate req r _ message hreq hcall hr =>
    -- the file name is taken: nothing happens
    have hfate : fate = .answered := hanswered _ List.mem_cons_self (.inl ⟨req, rfl⟩)
    subst hfate
    rcases delivers_metadata hcall with ⟨h, -⟩ | ⟨-, -, resp, hserves, hresp, -⟩
    · cases h
    rcases hserves.create_cases with ⟨-, hsame, -⟩ | ⟨obj, rfl, -⟩
    · refine iff_of_true (fun _ => ?_) (fun e he => ?_)
      · rw [hsame]
        exact .refl _
      · rw [List.mem_singleton.mp he]
        exact hcreate
    · cases hr _ (hresp rfl)
  | @failed req obj c₁ _ loop message hreq hcreated hnodes hloop =>
    have hstore := hcreated.store
    have habsent : obj.objectId ∉ c.metadata.store.objectsById := fun h =>
      hcreated.fresh _ List.mem_cons_self (hissued _ h)
    have htouched : Touched obj.toProto.objectId obj.filename c₁.metadata.store
        c₁.metadata.store :=
      ⟨⟨obj, by rw [hstore]; exact Finmap.lookup_insert _, rfl⟩, rfl, rfl⟩
    rcases putChunks_objects hcreated.objectId_ne_nil hcreated.objectId_length
        hcreated.chunkId_length htouched hloop
        (fun e he => hanswered e (List.mem_cons_of_mem _ he)) with
      ⟨hnone, -⟩ | ⟨-, ⟨e, he, hfailed⟩, o, ho⟩ | ⟨-, hno, hobjects, hnames⟩
    · cases hnone
    · -- a failed selection leaves the new object
      refine iff_of_false (fun h => ?_) (fun h => h e (List.mem_cons_of_mem _ he) hfailed)
      rw [(h rfl).1, ObjectInfo.toProto_objectId, Finmap.lookup_eq_none.mpr habsent] at ho
      cases ho
    · -- a failed quorum removes it again
      refine iff_of_true (fun _ => ⟨?_, ?_⟩) (fun e he => ?_)
      · rw [hobjects, hstore]
        exact (erase_insert_self _ _ _).trans (erase_of_notMem habsent)
      · rw [hnames, hstore]
        refine (erase_insert_self _ _ _).trans (erase_of_notMem ?_)
        rw [hcreated.filename, hreq]
        exact hreq ▸ hcreated.free
      · rcases List.mem_cons.mp he with rfl | he
        · exact hcreate
        · exact hno e he
  | @succeeded req obj c₁ _ loop hreq hcreated hnodes hloop =>
    have htouched : Touched obj.toProto.objectId obj.filename c₁.metadata.store
        c₁.metadata.store :=
      ⟨⟨obj, by rw [hcreated.store]; exact Finmap.lookup_insert _, rfl⟩, rfl, rfl⟩
    rcases putChunks_objects hcreated.objectId_ne_nil hcreated.objectId_length
        hcreated.chunkId_length htouched hloop
        (fun e he => hanswered e (List.mem_cons_of_mem _ he)) with
      ⟨-, hno⟩ | ⟨hsome, -⟩ | ⟨hsome, -⟩
    · refine iff_of_true (fun h => by cases h) (fun e he => ?_)
      rcases List.mem_cons.mp he with rfl | he
      · exact hcreate
      · exact hno e he
    · exact absurd rfl hsome
    · exact absurd rfl hsome

/-- With no node registered the quorum fails, and the put cleans up. -/
theorem put_failure_restores_quorum :
    ∃ (trace : List (Event Rpc Rpc.Reply)) (result : PutResult) (c' : Cluster Unit),
      Runs (Cluster.Serves {} fun _ => none) (put {} (str "a.txt") [] (str "default"))
        ⟨{}, fun _ => (ChunkStore.construct (str "/data") ∅ [], ∅)⟩ trace result c' ∧
      result.success = false ∧ SameObjects {} c'.metadata.store := by
  have hvisits : NodeTable.empty.Visits [] :=
    ⟨List.nodup_nil, fun node => by simp⟩
  have hpossible : NodeOrder.Possible
      (emptyCreated {} {} (str "a.txt") (str "default") {}).store
      (MetadataService.strategyOf {} []) {} :=
    ⟨hvisits, List.Perm.refl _, fun _ => List.Pairwise.nil⟩
  have hturn : Runs (Cluster.Serves {} fun _ => (none : Option Unit))
      (putChunk {} [] (emptyObject {} {} (str "a.txt") (str "default")).toProto
        { chunkId := draw 1, objectId := draw 0, version := 1 } 0)
      ⟨emptyCreated {} {} (str "a.txt") (str "default") {},
        fun _ => (ChunkStore.construct (str "/data") ∅ [], ∅)⟩ _ _ _ :=
    putChunk_runs_delete (.metadata (.selectNodes hpossible)) (.done _ _) (by decide)
      (.answered (.metadata (.deleteObject _ _)))
  have hrun := put_empty_runs Finmap.notMem_empty hturn
  refine ⟨_, _, _, hrun, rfl, (put_failure_restores_iff ?_ hrun ?_).mpr ?_ rfl⟩
  · exact fun id hid => absurd hid Finmap.notMem_empty
  · intro e he
    simp only [List.nil_append, List.mem_cons, List.not_mem_nil, or_false] at he
    rcases he with rfl | rfl | rfl <;> exact fun _ => rfl
  · intro e he
    simp only [List.nil_append, List.mem_cons, List.not_mem_nil, or_false] at he
    rcases he with rfl | rfl | rfl <;> (rintro ⟨req, fate, heq⟩; cases heq)

/-- The selection of nodes fails, and the object stays without any replica: the
file name cannot be put again. -/
theorem put_failure_keeps_object :
    ∃ (trace : List (Event Rpc Rpc.Reply)) (result : PutResult) (c' : Cluster Unit),
      Runs (Cluster.Serves {} fun _ => none) (put {} (str "a.txt") [] (str "default"))
        ⟨{}, fun _ => (ChunkStore.construct (str "/data") ∅ [], ∅)⟩ trace result c' ∧
      (∀ e ∈ trace, CreatesOrDeletes e → e.fate = .answered) ∧
      result.success = false ∧ ¬SameObjects {} c'.metadata.store := by
  have hturn : Runs (Cluster.Serves {} fun _ => (none : Option Unit))
      (putChunk {} [] (emptyObject {} {} (str "a.txt") (str "default")).toProto
        { chunkId := draw 1, objectId := draw 0, version := 1 } 0)
      ⟨emptyCreated {} {} (str "a.txt") (str "default") {},
        fun _ => (ChunkStore.construct (str "/data") ∅ [], ∅)⟩ _ _ _ :=
    runs_rpc.mpr ⟨.requestLost, none, _, [], .requestLost _, .done _ _, rfl⟩
  refine ⟨_, _, _, put_empty_runs Finmap.notMem_empty hturn, ?_, rfl, fun hsame => ?_⟩
  · intro e he
    rcases List.mem_cons.mp he with rfl | he
    · exact fun _ => rfl
    · rw [List.mem_singleton.mp he]
      rintro (⟨req, hreq⟩ | ⟨req, hreq⟩) <;> cases hreq
  · have hlookup := congrArg (Finmap.lookup (draw 0)) hsame.1
    rw [emptyCreated, Finmap.lookup_insert] at hlookup
    cases hlookup

end StorageEngine.StorageClient
