import StorageEngine.Client.PutRun
import StorageEngine.Cluster.ChunkIds
import StorageEngine.Lib.Interleaving

/-!
# Deleting among other clients

Any number of `put`, `get` and `delete_object` calls that take turns.  `delete_object`
deletes the chunks of the object that it has located, and then whatever object has the
name by then.

* `RemovesLocated` is what should hold of a `DeleteObject` call.
* `NameKept`: since the call has located its object, nobody has created one of that name.
* `delete_removes_located`: if all deletions meet it, they remove what they have located.
-/

namespace StorageEngine

open Lib Lib.Remote MetadataService MetadataStore

/-- A call of a client. -/
inductive ClientCall where
  | put (cfg : ClusterConfig) (filename : Str) (data : Bytes) (owner : Str)
  | get (filename : Str)
  | deleteObject (filename : Str)

namespace ClientCall

def program : ClientCall → ClusterProg Unit
  | .put cfg filename data owner => do
    let _ ← StorageClient.put cfg filename data owner
    return ()
  | .get filename => do
    let _ ← StorageClient.get filename
    return ()
  | .deleteObject filename => do
    let _ ← StorageClient.deleteObject filename
    return ()

/-- A step of clients that take turns. -/
abbrev Turn (P ι : Type) :=
  Transition (Threads P Rpc Rpc.Reply (Cluster ι) Unit) (Action P Rpc Rpc.Reply)

variable {P ι : Type}

/-- The metadata before the step. -/
def Turn.before (step : Turn P ι) : MetadataStore := step.source.state.metadata.store

/-- The metadata after the step. -/
def Turn.after (step : Turn P ι) : MetadataStore := step.target.state.metadata.store

/-- A replica of a chunk of the located object. -/
def ReplicaOf (located : LocateObjectResponse) (address chunkId : Str) : Prop :=
  ∃ chunk ∈ located.object.chunks, chunk.chunkId = chunkId ∧
    ∃ rep ∈ chunk.replicas, rep.address = address

/-- The call has been made. -/
def Called (history : List (Event Rpc Rpc.Reply)) (q : Rpc) : Prop :=
  ∃ e ∈ history, e.request = q

/-- The step that removes an object removes the one that its call has located, of which it
has deleted the chunks, and which has been there ever since. -/
def RemovesLocated [DecidableEq P] (filename : Str) (before : List (Turn P ι))
    (step : Turn P ι) : Prop :=
  ∃ early locate later fate located, before = early ++ locate :: later ∧
    locate.label = ⟨step.label.process,
      ⟨.metadata (.locateObject { filename := filename }), fate, some located⟩⟩ ∧
    (∀ address chunkId, Called (callsOf step.label.process before)
        (.storage address (.deleteChunk { chunkId := chunkId })) ↔
      ReplicaOf located address chunkId) ∧
    ∀ key obj, step.before.objectsById.lookup key = some obj →
      step.after.objectsById.lookup key = none →
        obj.objectId = located.object.objectId ∧ ∀ t ∈ later, key ∈ t.before.objectsById

/-- An object of this name is created. -/
def Creates (filename : Str) (step : Turn P ι) : Prop :=
  ∃ req, step.label.event.request = .metadata (.createObject req) ∧
    step.label.event.fate ≠ .requestLost ∧ req.filename = filename ∧
    filename ∉ step.before.filenameToId

/-- If there is an object for the step to remove, none of its name has been created since
the call has located its object. -/
def NameKept (filename : Str) (before : List (Turn P ι)) (step : Turn P ι) : Prop :=
  step.label.event.fate ≠ .requestLost → filename ∈ step.before.filenameToId →
  ∀ early locate later, before = early ++ locate :: later →
    locate.label.process = step.label.process →
    (∃ req, locate.label.event.request = .metadata (.locateObject req)) →
    ∀ t ∈ later, ¬Creates filename t

/-! ## The calls of a deletion -/

/-- The first call has located an object. -/
def StartsAt (filename : Str) (history : List (Event Rpc Rpc.Reply))
    (located : LocateObjectResponse) : Prop :=
  located.success = true ∧ ∃ fate rest, history =
    ⟨.metadata (.locateObject { filename := filename }), fate, some located⟩ :: rest

/-- A deletion first locates, then deletes replicas of what it has located, and deletes by
name when it has deleted them all. -/
def DeleteRule (filename : Str) (history : List (Event Rpc Rpc.Reply)) : Rpc → Prop
  | .metadata (.locateObject req) => req = { filename := filename } ∧ history = []
  | .storage address (.deleteChunk req) =>
    ∃ located, StartsAt filename history located ∧ ReplicaOf located address req.chunkId
  | .metadata (.deleteObject req) =>
    req = { filename := filename } ∧ ∃ located, StartsAt filename history located ∧
      ∀ address chunkId, ReplicaOf located address chunkId →
        Called history (.storage address (.deleteChunk { chunkId := chunkId }))
  | _ => False

theorem Called.mono {history later : List (Event Rpc Rpc.Reply)} {q : Rpc}
    (h : Called history q) : Called (history ++ later) q := by
  obtain ⟨e, he, hq⟩ := h
  exact ⟨e, List.mem_append_left _ he, hq⟩

theorem StartsAt.mono {filename : Str} {history later : List (Event Rpc Rpc.Reply)}
    {located : LocateObjectResponse} (h : StartsAt filename history located) :
    StartsAt filename (history ++ later) located := by
  obtain ⟨hok, fate, rest, rfl⟩ := h
  exact ⟨hok, fate, rest ++ later, rfl⟩

theorem StartsAt.unique {filename : Str} {history : List (Event Rpc Rpc.Reply)}
    {located located' : LocateObjectResponse} (h : StartsAt filename history located)
    (h' : StartsAt filename history located') : located = located' := by
  obtain ⟨-, fate, rest, rfl⟩ := h
  obtain ⟨-, fate', rest', heq⟩ := h'
  cases heq
  rfl

theorem deleteReplicas_keeps {filename : Str} {history : List (Event Rpc Rpc.Reply)}
    {located : LocateObjectResponse} (hstart : StartsAt filename history located)
    {chunk : ChunkMetadata} (hchunk : chunk ∈ located.object.chunks)
    {replicas : List ReplicaLocation} (hreplicas : ∀ rep ∈ replicas, rep ∈ chunk.replicas) :
    (StorageClient.deleteReplicas chunk.chunkId replicas).Keeps (DeleteRule filename)
      (fun _ history => ∀ rep ∈ replicas,
        Called history (.storage rep.address (.deleteChunk { chunkId := chunk.chunkId })))
      history := by
  induction replicas generalizing history with
  | nil => exact .done (by simp)
  | cons rep reps ih =>
    rw [List.forall_mem_cons] at hreplicas
    refine .call ⟨located, hstart, chunk, hchunk, rfl, rep, hreplicas.1, rfl⟩ fun fate r => ?_
    refine (ih hstart.mono hreplicas.2).imp fun _ later hcalled => ?_
    rw [List.forall_mem_cons]
    exact ⟨.mono ⟨_, List.mem_append_right _ (List.mem_singleton_self _), rfl⟩, hcalled⟩

theorem deleteChunks_keeps {filename : Str} {history : List (Event Rpc Rpc.Reply)}
    {located : LocateObjectResponse} (hstart : StartsAt filename history located)
    {chunks : List ChunkMetadata} (hchunks : ∀ chunk ∈ chunks, chunk ∈ located.object.chunks) :
    (StorageClient.deleteChunks chunks).Keeps (DeleteRule filename)
      (fun _ history => ∀ chunk ∈ chunks, ∀ rep ∈ chunk.replicas,
        Called history (.storage rep.address (.deleteChunk { chunkId := chunk.chunkId })))
      history := by
  induction chunks generalizing history with
  | nil => exact .done (by simp)
  | cons chunk rest ih =>
    rw [List.forall_mem_cons] at hchunks
    refine (deleteReplicas_keeps hstart hchunks.1 fun _ h => h).bind fun _ later hfirst => ?_
    refine (ih hstart.mono hchunks.2).imp fun _ later' hrest => ?_
    rw [List.forall_mem_cons]
    exact ⟨fun rep hrep => (hfirst rep hrep).mono, hrest⟩

theorem deleteObject_keeps (filename : Str) :
    (StorageClient.deleteObject filename).Keeps (DeleteRule filename) (fun _ _ => True) [] := by
  refine .call ⟨rfl, rfl⟩ fun fate r => ?_
  cases r with
  | none => exact .done trivial
  | some located =>
    simp only [Prog.bind]
    split
    · exact .done trivial
    · next hok =>
      have hstart : StartsAt filename ([] ++ [⟨.metadata (.locateObject { filename := filename }),
          fate, some located⟩]) located :=
        ⟨Bool.eq_true_of_not_eq_false hok, fate, [], rfl⟩
      refine (deleteChunks_keeps hstart fun _ h => h).bind fun _ later hcalled => ?_
      refine .call ⟨rfl, located, hstart.mono, ?_⟩ fun fate r => ?_
      · rintro address chunkId ⟨chunk, hchunk, rfl, rep, hrep, rfl⟩
        exact hcalled chunk hchunk rep hrep
      · cases r <;> exact .done trivial

/-- The rule of a call: only deletions have one. -/
def Rule : ClientCall → List (Event Rpc Rpc.Reply) → Rpc → Prop
  | .deleteObject filename => DeleteRule filename
  | _ => fun _ _ => True

theorem keeps (call : ClientCall) : call.program.Keeps call.Rule (fun _ _ => True) [] := by
  cases call with
  | put cfg filename data owner => exact Prog.keeps_all _ _
  | get filename => exact Prog.keeps_all _ _
  | deleteObject filename => exact (deleteObject_keeps filename).bind fun _ _ _ => .done trivial

/-! ## The object of a name -/

/-- An answer that an object has been located gives the one that has the name. -/
theorem serves_locate {svc : ClusterConfig} {filename : Str} {n n' : MetadataNode}
    {located : LocateObjectResponse} (hindexed : Indexed n.store)
    (h : Serves svc (.locateObject { filename := filename }) n located n')
    (hok : located.success = true) :
    n' = n ∧ ∃ key obj, n.store.filenameToId.lookup filename = some key ∧
      n.store.objectsById.lookup key = some obj ∧ located.object = obj.toProto := by
  cases h with
  | locateObject =>
    rw [MetadataService.locateObject, if_neg (not_not_intro rfl)] at hok ⊢
    by_cases hnil : filename = []
    · rw [if_neg (not_not_intro hnil)] at hok
      cases hok
    · rw [if_pos hnil, locateByFilename] at hok ⊢
      cases hid : n.store.filenameToId.lookup filename with
      | none =>
        rw [hid] at hok
        cases hok
      | some id =>
        obtain ⟨obj, hobj, -⟩ := hindexed.inverse.pointed hid
        exact ⟨rfl, id, obj, rfl, hobj, by simp only [hobj]⟩

/-- A deletion by name removes the object that has it. -/
theorem serves_delete {svc : ClusterConfig} {filename : Str} {n n' : MetadataNode}
    {resp : StatusResponse} (h : Serves svc (.deleteObject { filename := filename }) n resp n')
    {key : Str} {obj : ObjectInfo} (hobj : n.store.objectsById.lookup key = some obj)
    (hgone : n'.store.objectsById.lookup key = none) :
    n.store.filenameToId.lookup filename = some key := by
  cases h with
  | deleteObject =>
    rw [MetadataService.deleteObject, if_neg (not_not_intro rfl)] at hgone
    by_cases hnil : filename = []
    · rw [if_neg (not_not_intro hnil), hobj] at hgone
      cases hgone
    · rw [if_pos hnil] at hgone
      rcases deleteObjectByFilename_cases n.store filename with hsame | ⟨id, hid, hdelete⟩
      · rw [hsame, hobj] at hgone
        cases hgone
      · rw [hdelete] at hgone
        by_cases hkey : key = id
        · rw [hkey, hid]
        · rcases MetadataStore.deleteObject_cases n.store id with ⟨heq, -⟩ | ⟨o, -, heq⟩
          · rw [heq, hobj] at hgone
            cases hgone
          · rw [heq, Finmap.lookup_erase_ne hkey, hobj] at hgone
            cases hgone

section Runs

variable [DecidableEq P] [DecidableEq ι] {svc : ClusterConfig} {reach : Str → Option ι}
  {t t' : Threads P Rpc Rpc.Reply (Cluster ι) Unit} {trace : List (Turn P ι)} {filename : Str}

/-- A step that does not create the name gives it to no object. -/
theorem step_name {step : Turn P ι}
    (h : Threads.Step (Cluster.Serves svc reach) step.source step.label step.target)
    (hnone : ¬Creates filename step) {id : Str}
    (hid : step.after.filenameToId.lookup filename = some id) :
    step.before.filenameToId.lookup filename = some id := by
  obtain ⟨source, ⟨p, ⟨q, fate, r⟩⟩, target⟩ := step
  cases q with
  | storage address q =>
    have hsame := delivers_storage_metadata h.delivers
    rw [Turn.after, hsame] at hid
    exact hid
  | metadata q =>
    rcases delivers_metadata h.delivers with ⟨-, -, hsame⟩ | ⟨hfate, -, resp, hserves, -⟩
    · rw [Turn.after, hsame] at hid
      exact hid
    · cases hserves.change with
      | same hobjects _ =>
        rw [Turn.after, hobjects.2] at hid
        exact hid
      | @created req obj hq hcreated =>
        subst hq
        rw [Turn.after, hcreated.store] at hid
        rcases lookup_insert_cases hid with ⟨hname, -⟩ | ⟨-, hid⟩
        · have hreq := hname.trans hcreated.filename
          exact absurd ⟨req, rfl, hfate, hreq.symm, hreq ▸ hcreated.free⟩ hnone
        · exact hid
      | @deleted req objectId obj hq hobj hn =>
        rw [Turn.after, hn] at hid
        rcases MetadataStore.deleteObject_cases source.state.metadata.store objectId with
          ⟨heq, -⟩ | ⟨o, -, heq⟩
        · rw [heq] at hid
          exact hid
        · rw [heq] at hid
          exact (lookup_erase_cases hid).2
      | updated hq hobj hreplace hn =>
        rw [Turn.after, hn] at hid
        exact hid

/-- While nobody creates the name, an object that has it at the end has had it all the
time. -/
theorem run_name (hrun : Run (Threads.Step (Cluster.Serves svc reach)) t trace t')
    (hnone : ∀ step ∈ trace, ¬Creates filename step) {id : Str}
    (hid : t'.state.metadata.store.filenameToId.lookup filename = some id) :
    t.state.metadata.store.filenameToId.lookup filename = some id ∧
      ∀ step ∈ trace, step.before.filenameToId.lookup filename = some id := by
  induction hrun with
  | refl t => exact ⟨hid, by simp⟩
  | @head t t₁ t' label rest hstep _ ih =>
    rw [List.forall_mem_cons] at hnone ⊢
    obtain ⟨hnext, hrest⟩ := ih hnone.2 hid
    have hfirst := @step_name P ι _ _ svc reach filename ⟨t, label, t₁⟩ hstep hnone.1 id hnext
    exact ⟨hfirst, hfirst, hrest⟩

/-- The step of a deletion removes the object that has the name. -/
theorem step_removes {step : Turn P ι}
    (h : Threads.Step (Cluster.Serves svc reach) step.source step.label step.target)
    (hreq : step.label.event.request = .metadata (.deleteObject { filename := filename }))
    {key : Str} {obj : ObjectInfo} (hobj : step.before.objectsById.lookup key = some obj)
    (hgone : step.after.objectsById.lookup key = none) :
    step.label.event.fate ≠ .requestLost ∧
      step.before.filenameToId.lookup filename = some key := by
  obtain ⟨source, ⟨p, ⟨q, fate, r⟩⟩, target⟩ := step
  cases hreq
  rcases delivers_metadata h.delivers with ⟨-, -, hsame⟩ | ⟨hfate, -, resp, hserves, -⟩
  · rw [Turn.after, hsame] at hgone
    rw [Turn.before, hgone] at hobj
    cases hobj
  · exact ⟨hfate, serves_delete hserves hobj hgone⟩

/-- An object that has the name at the end is the one that has been located by it, if nobody
has created the name since, and it has been stored ever since. -/
theorem located_name {early later : List (Turn P ι)} {locate : Turn P ι} {p : P} {fate : Fate}
    {located : LocateObjectResponse}
    (hrun : Run (Threads.Step (Cluster.Serves svc reach)) t (early ++ locate :: later) t')
    (hids : t.state.metadata.ChunkIds)
    (hlocate : locate.label = ⟨p, ⟨.metadata (.locateObject { filename := filename }), fate,
      some located⟩⟩)
    (hok : located.success = true) (hnone : ∀ step ∈ later, ¬Creates filename step) {key : Str}
    (hkey : t'.state.metadata.store.filenameToId.lookup filename = some key) :
    located.object.objectId = key ∧ ∀ step ∈ later, key ∈ step.before.objectsById := by
  obtain ⟨hearly, hlocating, hlater⟩ := hrun.split_step
  have hids := run_chunkIds hearly hids
  obtain ⟨hfound, hthen⟩ := run_name hlater hnone hkey
  -- so it has the name when the call locates its object
  have hdelivers := hlocating.delivers
  rw [hlocate] at hdelivers
  rcases delivers_metadata hdelivers with ⟨-, hlost, -⟩ | ⟨-, -, resp, hserves, -, hresp⟩
  · cases hlost
  obtain rfl : located = resp := by simpa using hresp
  obtain ⟨hsame, key', obj, hlocated, hobj, hobject⟩ := serves_locate hids.indexed hserves hok
  rw [hsame, hlocated] at hfound
  refine ⟨?_, fun step hstep => ?_⟩
  · rw [hobject, ObjectInfo.toProto_objectId, hids.indexed.keyed hobj, Option.some.inj hfound]
  · obtain ⟨first, rest, rfl⟩ := List.append_of_mem hstep
    obtain ⟨hfirst, -, -⟩ := hlater.split_step
    have hthere := run_chunkIds hfirst (delivers_chunkIds hdelivers hids)
    obtain ⟨o, ho, -⟩ := hthere.indexed.inverse.pointed (hthen step hstep)
    exact Finmap.mem_of_lookup_eq_some ho

/-- In every interleaving in which the deletions keep their names, they remove what they
have located. -/
theorem delete_removes_located (calls : P → ClientCall) (c : Cluster ι)
    (hreached : c.metadata.Reached svc fun _ => True)
    (hrun : Run (Threads.Step (Cluster.Serves svc reach))
      ⟨c, fun p => (calls p).program⟩ trace t')
    (hkept : ∀ before step after filename req, trace = before ++ step :: after →
      calls step.label.process = .deleteObject filename →
      step.label.event.request = .metadata (.deleteObject req) → NameKept filename before step) :
    ∀ before step after filename req, trace = before ++ step :: after →
      calls step.label.process = .deleteObject filename →
      step.label.event.request = .metadata (.deleteObject req) →
      RemovesLocated filename before step := by
  intro before step after filename req htrace hcall hreq
  have hname := hkept before step after filename req htrace hcall hreq
  have hkeeps := Run.keeps hrun (fun _ => []) (fun p => (calls p).keeps)
  have hrule : ∀ before' step' after', trace = before' ++ step' :: after' →
      step'.label.process = step.label.process →
        DeleteRule filename (callsOf step.label.process before') step'.label.event.request := by
    intro before' step' after' htrace' hprocess
    have hrule := hkeeps before' step' after' htrace'
    rwa [hprocess, hcall, List.nil_append] at hrule
  have hlast := hrule before step after htrace rfl
  rw [hreq] at hlast
  obtain ⟨rfl, located, hstart, hcalled⟩ := hlast
  obtain ⟨hok, fate, rest, hhistory⟩ := hstart
  -- the step at which the call has located the object
  obtain ⟨locate, hmem, hlocate⟩ : ∃ locate ∈ before, locate.label = ⟨step.label.process,
      ⟨.metadata (.locateObject { filename := filename }), fate, some located⟩⟩ :=
    mem_callsOf.mp (by rw [hhistory]; exact List.mem_cons_self)
  obtain ⟨early, later, rfl⟩ := List.append_of_mem hmem
  refine ⟨early, locate, later, fate, located, rfl, hlocate, fun address chunkId => ⟨?_, ?_⟩,
    fun key obj hobj hgone => ?_⟩
  · rintro ⟨e, he, heq⟩
    obtain ⟨t, ht, hlabel⟩ := mem_callsOf.mp he
    obtain ⟨first, rest', hsplit⟩ := List.append_of_mem ht
    have hdelete := hrule first t (rest' ++ step :: after) (by simp [htrace, hsplit])
      (by rw [hlabel])
    rw [hlabel, heq] at hdelete
    obtain ⟨located', hstart', hreplica⟩ := hdelete
    have hstarts : StartsAt filename (callsOf step.label.process (early ++ locate :: later))
        located' := by
      rw [hsplit, callsOf_append]
      exact hstart'.mono
    rwa [hstarts.unique ⟨hok, fate, rest, hhistory⟩] at hreplica
  · exact hcalled address chunkId
  · rw [htrace] at hrun
    obtain ⟨hbefore, hstep, -⟩ := hrun.split_step
    -- the name leads to the removed object when the call is made
    obtain ⟨hfate, hkey⟩ := step_removes hstep hreq hobj hgone
    have hnone := hname hfate (Finmap.mem_of_lookup_eq_some hkey) early locate later rfl
      (by rw [hlocate]) ⟨_, by rw [hlocate]⟩
    obtain ⟨hid, hthere⟩ := located_name hbefore hreached.chunkIds hlocate hok hnone hkey
    have hchunkIds := run_chunkIds hbefore hreached.chunkIds
    exact ⟨(hchunkIds.indexed.keyed hobj).trans hid.symm, hthere⟩

end Runs

/-! ## Two deletions and an upload -/

section Race

open StorageClient

private def raced : Str := str "a.txt"

/-- The metadata node with one object, which has no replicas. -/
private def racedObject : MetadataNode := emptyCreated {} {} raced [] {}

/-- The response that locates it. -/
private def racedLocated : LocateObjectResponse :=
  { success := true, object := (emptyObject {} {} raced []).toProto }

private theorem racedObject_reached : racedObject.Reached {} fun _ => True :=
  Relation.ReflTransGen.refl.tail
    ⟨_, _, trivial, @serves_create_empty {} {} raced [] {} Finmap.notMem_empty⟩

private theorem racedObject_name :
    racedObject.store.filenameToId.lookup raced = some (draw 0) :=
  Finmap.lookup_insert _

private theorem racedObject_lookup :
    racedObject.store.objectsById.lookup (draw 0) = some (emptyObject {} {} raced []) :=
  Finmap.lookup_insert _

private def nowhere : Str → Option Unit := fun _ => none

private def bare (m : MetadataNode) : Cluster Unit := ⟨m, fun _ => ({ basePath := [] }, ∅)⟩

private theorem serves_locate_raced :
    Serves {} (.locateObject { filename := raced }) racedObject racedLocated racedObject := by
  have hserves := @Serves.locateObject {} racedObject { filename := raced }
  have hresp : MetadataService.locateObject racedObject.store { filename := raced } =
      racedLocated := by
    have hne : raced ≠ [] := by decide
    rw [MetadataService.locateObject, if_neg (not_not_intro rfl), if_pos hne, locateByFilename,
      racedObject_name]
    simp only [racedObject_lookup]
    rfl
  rwa [hresp] at hserves

/-- A deletion that has located the object can wait before its last call. -/
private theorem locate_advances :
    ∃ next, Advances (Cluster.Serves {} nowhere) (program (.deleteObject raced))
      (bare racedObject)
      [⟨.metadata (.locateObject { filename := raced }), .answered, some racedLocated⟩]
      (.call (.metadata (.deleteObject { filename := raced })) next) (bare racedObject) :=
  ⟨_, .call (.answered (.metadata serves_locate_raced)) (.refl _ _)⟩

/-- A deletion that runs alone removes the object that it has located. -/
theorem delete_removes_located_alone : ∃ (c : Cluster Unit)
    (t' : Threads Unit Rpc Rpc.Reply (Cluster Unit) Unit) (trace : List (Turn Unit Unit))
    (last : Turn Unit Unit), Run (Threads.Step (Cluster.Serves {} nowhere))
        ⟨c, fun _ => program (.deleteObject raced)⟩ (trace ++ [last]) t' ∧
      draw 0 ∈ last.before.objectsById ∧ RemovesLocated raced trace last := by
  obtain ⟨next, hlocated⟩ := locate_advances
  have hcall : Cluster.Serves {} nowhere (.metadata (.deleteObject { filename := raced }))
      (bare racedObject) _ _ := .metadata (.deleteObject _ _)
  obtain ⟨trace, last, hrun, hlabels, hsource, hlast, -⟩ :=
    hlocated.run_call () (fun _ => program (.deleteObject raced)) rfl (.answered hcall)
  refine ⟨_, _, trace, last, hrun, ?_, ?_⟩
  · rw [Turn.before, hsource]
    exact Finmap.mem_of_lookup_eq_some racedObject_lookup
  · refine delete_removes_located (fun _ => .deleteObject raced) _ racedObject_reached hrun
      (fun before step after filename req htrace _ _ _ _ early locate later hbefore _ _ t ht => ?_)
      trace last [] raced _ rfl rfl (by rw [hlast])
    rintro ⟨create, hcreate, -⟩
    -- neither of the two calls creates an object
    have hmem : t.label ∈ (trace ++ [last]).map Transition.label :=
      List.mem_map_of_mem (by rw [htrace, hbefore]; simp [ht])
    rw [List.map_append, hlabels] at hmem
    simp only [List.map_cons, List.map_nil, List.cons_append, List.nil_append, List.mem_cons,
      List.not_mem_nil, or_false, hlast] at hmem
    rcases hmem with hlabel | hlabel <;> rw [hlabel] at hcreate <;> cases hcreate

/-- The metadata node after the object is deleted. -/
private def racedDeleted : MetadataNode :=
  { racedObject with store :=
      { racedObject.store with
        filenameToId := racedObject.store.filenameToId.erase raced
        objectsById := racedObject.store.objectsById.erase (draw 0) } }

/-- A deletion of the object that has this id. -/
private theorem serves_delete_raced {m : MetadataNode} {id : Str} {obj : ObjectInfo}
    (hid : m.store.filenameToId.lookup raced = some id)
    (hobj : m.store.objectsById.lookup id = some obj) (hname : obj.filename = raced) :
    Serves {} (.deleteObject { filename := raced }) m
      { success := true, message := str "Deleted" }
      { m with store :=
          { m.store with
            filenameToId := m.store.filenameToId.erase raced
            objectsById := m.store.objectsById.erase id } } := by
  have hserves := @Serves.deleteObject {} m { filename := raced }
  rwa [MetadataService.deleteObject_byName (by decide) hid hobj, hname] at hserves

/-- The object that an upload of the same name creates then. -/
private def racedAgain : ObjectInfo :=
  newObject (fun k => draw (k + 2)) 0 raced 0 3 []
    [{ chunkId := draw 3, objectId := draw 2, version := 1 }]

private def racedRecreated : MetadataNode :=
  { store :=
      { racedDeleted.store with
        objectsById := racedDeleted.store.objectsById.insert (draw 2) racedAgain
        filenameToId := racedDeleted.store.filenameToId.insert raced (draw 2) }
    issued := draw 2 :: draw 3 :: racedDeleted.issued }

private theorem serves_recreate :
    Serves {} (.createObject (createRequest {} raced [] [])) racedDeleted
      { success := true, object := racedAgain.toProto } racedRecreated := by
  have hids : ∀ id ∈ [draw 2, draw 3], id ∉ [draw 0, draw 1] := by decide +kernel
  have hdistinct : [draw 2, draw 3].Nodup := by decide +kernel
  refine @Serves.createObject {} _ _ (fun k => draw (k + 2)) 0 _ _ (fun k => ⟨_, _, rfl⟩)
    hdistinct hids ?_
  have hfree : raced ∉ racedDeleted.store.filenameToId := Finmap.notMem_erase_self
  rw [MetadataService.createObject]
  simp [createRequest, MetadataStore.createObject, hfree, planChunks, racedAgain, newObject]

/-- The object that the last deletion removes. -/
private theorem racedRecreated_lookup :
    racedRecreated.store.objectsById.lookup (draw 2) = some racedAgain :=
  Finmap.lookup_insert _

/-- A deletion that has located an object removes the one that takes its place. -/
theorem delete_removes_another : ∃ (calls : Fin 3 → ClientCall) (c : Cluster Unit)
    (t' : Threads (Fin 3) Rpc Rpc.Reply (Cluster Unit) Unit) (trace : List (Turn (Fin 3) Unit)),
    c.metadata.Reached {} (fun _ => True) ∧
      Run (Threads.Step (Cluster.Serves {} nowhere)) ⟨c, fun p => (calls p).program⟩ trace t' ∧
      ¬∀ before step after filename req, trace = before ++ step :: after →
        calls step.label.process = .deleteObject filename →
        step.label.event.request = .metadata (.deleteObject req) →
        RemovesLocated filename before step := by
  let calls : Fin 3 → ClientCall := fun p =>
    if p = 2 then .put {} raced [] [] else .deleteObject raced
  have hne₁ : (1 : Fin 3) ≠ 0 := by decide
  have hne₂ : (2 : Fin 3) ≠ 0 := by decide
  have hne₃ : (2 : Fin 3) ≠ 1 := by decide
  -- the first deletion waits, the second one deletes the object, and an upload makes another
  obtain ⟨next, hlocated⟩ := locate_advances
  let programs₀ : Fin 3 → ClusterProg Unit := fun p => (calls p).program
  let programs₁ := Function.update programs₀ 0
    (.call (.metadata (.deleteObject { filename := raced })) next)
  let programs₂ := Function.update programs₁ 1 (.done ())
  obtain ⟨trace₀, hrun₀, hlabels₀⟩ := hlocated.run 0 programs₀ rfl
  have hdeleted : Advances (Cluster.Serves {} nowhere) (program (.deleteObject raced))
      (bare racedObject) _ _ (bare racedDeleted) :=
    .call (.answered (.metadata serves_locate_raced)) (.call (.answered (.metadata
      (serves_delete_raced racedObject_name racedObject_lookup rfl))) (.refl _ _))
  obtain ⟨trace₁, hrun₁, hlabels₁⟩ := hdeleted.run 1 programs₁ (Function.update_of_ne hne₁ _ _)
  have hcreated : Advances (Cluster.Serves {} nowhere) (program (.put {} raced [] []))
      (bare racedDeleted) _ _ (bare racedRecreated) :=
    .call (.answered (.metadata serves_recreate)) (.refl _ _)
  obtain ⟨trace₂, hrun₂, hlabels₂⟩ := hcreated.run 2 programs₂
    ((Function.update_of_ne hne₃ _ _).trans (Function.update_of_ne hne₂ _ _))
  have hwaits : ∀ q, Function.update programs₂ 2 q 0 =
      .call (.metadata (.deleteObject { filename := raced })) next := fun q =>
    (Function.update_of_ne hne₂.symm _ _).trans ((Function.update_of_ne hne₁.symm _ _).trans
      (Function.update_self _ _ _))
  have hcall : Cluster.Serves {} nowhere (.metadata (.deleteObject { filename := raced }))
      (bare racedRecreated) _ _ :=
    .metadata (serves_delete_raced (Finmap.lookup_insert _) racedRecreated_lookup rfl)
  have hlast := fun q => Threads.Step.call (p := (0 : Fin 3))
    (t := ⟨bare racedRecreated, Function.update programs₂ 2 q⟩) (hwaits q) (.answered hcall)
  have hfull := (hrun₀.trans (hrun₁.trans hrun₂)).trans (.single (hlast _))
  refine ⟨calls, _, _, _, racedObject_reached, hfull, fun hremoves => ?_⟩
  obtain ⟨early, locate, later, fate, located, hbefore, hlabel, -, hremoved⟩ :=
    hremoves _ _ [] raced _ rfl rfl rfl
  obtain ⟨hid, -⟩ := hremoved (draw 2) racedAgain racedRecreated_lookup (Finmap.lookup_erase _ _)
  have hmem : locate.label ∈ (trace₀ ++ (trace₁ ++ trace₂)).map Transition.label :=
    List.mem_map_of_mem (by rw [hbefore]; simp)
  rw [List.map_append, List.map_append, hlabels₀, hlabels₁, hlabels₂, hlabel] at hmem
  have hfirst : located = racedLocated := And.right (by simpa using hmem)
  have hne : draw 2 ≠ draw 0 := by decide +kernel
  rw [hfirst] at hid
  exact hne hid

end Race

end ClientCall

end StorageEngine
