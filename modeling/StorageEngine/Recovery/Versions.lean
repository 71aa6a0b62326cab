import StorageEngine.Cluster.ChunkIds
import StorageEngine.Recovery.Detection
import StorageEngine.Recovery.OneObject

/-!
# Versions under concurrent repair

Any number of repair passes that take turns at their calls.  A pass computes the new
version of a chunk from the scan at its start, and `UpdateChunk` does not compare it with
the version that is stored by then.

* `KeepsVersions` is what should hold of every step.
* `UpToDate`: since the scan of the pass, nobody has updated the chunk that it updates.
* `versions_kept`: if all steps are up to date, all keep the versions.
-/

namespace StorageEngine

open Lib Lib.Remote MetadataService RecoveryManager StorageClient

namespace RepairPass

/-- A step of passes that take turns. -/
abbrev Turn (P ι : Type) :=
  Transition (Threads P Rpc Rpc.Reply (Cluster ι) RecoveryResult) (Action P Rpc Rpc.Reply)

variable {P ι : Type}

/-- The metadata before the step. -/
def Turn.before (step : Turn P ι) : MetadataNode := step.source.state.metadata

/-- The metadata after the step. -/
def Turn.after (step : Turn P ι) : MetadataNode := step.target.state.metadata

/-- Stored chunks stay, their versions do not decrease, and an update that was computed
from an older version than the stored one does not replace it. -/
structure KeepsVersions (step : Turn P ι) : Prop where
  stays : ∀ key c, step.before.Holds key c →
    ∃ c', step.after.Holds key c' ∧ c'.chunkId = c.chunkId
  monotone : ∀ key c c', step.before.Holds key c → step.after.Holds key c' →
    c'.chunkId = c.chunkId → c.version ≤ c'.version
  fresh : ∀ base replicas,
    step.label.event.request = .metadata (.updateChunk (updateRequest base replicas)) →
    ∀ key c, step.before.Holds key c → c.chunkId = base.chunkId → base.version < c.version →
      step.after.Holds key c

/-- The metadata service has served an update of this chunk. -/
def Updates (step : Turn P ι) (chunkId : Str) : Prop :=
  ∃ req, step.label.event.request = .metadata (.updateChunk req) ∧
    step.label.event.fate ≠ .requestLost ∧ req.chunk.chunkId = chunkId

/-- Since the scan of the pass, no update of the chunk has been served, and the new
version has not wrapped around. -/
def UpToDate (before : List (Turn P ι)) (step : Turn P ι) : Prop :=
  ∀ req, step.label.event.request = .metadata (.updateChunk req) → req.chunk.version ≠ 0 ∧
    ∀ early scan later, before = early ++ scan :: later →
      scan.label.process = step.label.process →
      scan.label.event.request = .metadata .getUnderReplicatedChunks →
      ∀ other ∈ later, ¬Updates other req.chunk.chunkId

/-! ## One step -/

private theorem le_succ_of_ne_zero {v : UInt32} (h : v + 1 ≠ 0) : v ≤ v + 1 := by
  have hne : (v + 1).toNat ≠ 0 := fun hzero => h (UInt32.toNat_inj.mp hzero)
  have hlt := v.toNat_lt
  rw [UInt32.toNat_add] at hne
  rw [UInt32.le_iff_toNat_le, UInt32.toNat_add]
  change (v.toNat + 1) % 2 ^ 32 ≠ 0 at hne
  change v.toNat ≤ (v.toNat + 1) % 2 ^ 32
  omega

/-- Replacing a chunk by its next version keeps the versions. -/
theorem keepsVersions_of_replaces {step : Turn P ι} (hids : step.before.ChunkIds) {key : Str}
    {chunk : ChunkInfo} {replicas : List ReplicaInfo}
    (hreq : step.label.event.request = .metadata (.updateChunk (updateRequest chunk replicas)))
    (hwrap : chunk.version + 1 ≠ 0) (hholds : step.before.Holds key chunk)
    (hreplaces : step.before.Replaces step.after (updateRequest chunk replicas).objectId
      (updateRequest chunk replicas).chunk.fromProto) : KeepsVersions step := by
  rw [updateRequest, ChunkInfo.fromProto_toProto] at hreplaces
  obtain ⟨old, hold, hid⟩ := hreplaces.old
  obtain ⟨hkey, rfl⟩ := hids.holds_unique hholds hold hid.symm
  have hnew := (hreplaces.holds _ _).mpr (.inl ⟨rfl, rfl⟩)
  refine ⟨fun key' c hc => ?_, fun key' c c' hc hc' hsame => ?_,
    fun base replicas' hbase key' c hc hsame hlt => ?_⟩
  · by_cases hc' : c.chunkId = chunk.chunkId
    · obtain ⟨rfl, rfl⟩ := hids.holds_unique hc hold hc'
      exact ⟨_, hnew, rfl⟩
    · exact ⟨c, (hreplaces.holds key' c).mpr (.inr ⟨hc, hc'⟩), rfl⟩
  · rcases (hreplaces.holds key' c').mp hc' with ⟨-, rfl⟩ | ⟨hc', -⟩
    · obtain ⟨-, rfl⟩ := hids.holds_unique hc hold hsame.symm
      exact le_succ_of_ne_zero hwrap
    · obtain ⟨-, rfl⟩ := hids.holds_unique hc' hc hsame
      exact UInt32.le_refl _
  · -- the update was computed from the stored version
    rw [hreq, Rpc.metadata.injEq, MetadataRpc.updateChunk.injEq] at hbase
    have hid : chunk.chunkId = base.chunkId := congrArg (fun req => req.chunk.chunkId) hbase
    have hversion : chunk.version + 1 = base.version + 1 :=
      congrArg (fun req => req.chunk.version) hbase
    obtain ⟨-, rfl⟩ := hids.holds_unique hc hold (hsame.trans hid.symm)
    rw [(UInt32.add_left_inj 1).mp hversion] at hlt
    exact absurd hlt (UInt32.lt_irrefl _)

theorem keepsVersions_of_holds {step : Turn P ι} (hids : step.before.ChunkIds)
    (hsame : ∀ key c, step.after.Holds key c ↔ step.before.Holds key c) : KeepsVersions step where
  stays key c hc := ⟨c, (hsame key c).mpr hc, rfl⟩
  monotone key c c' hc hc' hid := by
    obtain ⟨-, rfl⟩ := hids.holds_unique ((hsame key c').mp hc') hc hid
    exact UInt32.le_refl _
  fresh _ _ _ key c hc _ _ := (hsame key c).mpr hc

section Step

variable [DecidableEq ι] {svc : ClusterConfig} {reach : Str → Option ι}

/-- A call of a pass leaves all chunks, or it is an update that replaces one. -/
theorem delivers_holds {c c' : Cluster ι} {q : Rpc} {fate : Fate} {r : Option q.Reply}
    (h : Delivers (Cluster.Serves svc reach) q fate c r c') (hids : c.metadata.ChunkIds)
    {history : List (Event Rpc Rpc.Reply)} (hrule : Rule history q) :
    (∀ key chunk, c'.metadata.Holds key chunk ↔ c.metadata.Holds key chunk) ∨
      ∃ req, q = .metadata (.updateChunk req) ∧ fate ≠ .requestLost ∧
        c.metadata.Replaces c'.metadata req.objectId req.chunk.fromProto := by
  cases q with
  | metadata q =>
    rcases delivers_metadata h with ⟨-, -, rfl⟩ | ⟨hfate, -, resp, hserves, -, -⟩
    · exact .inl fun key chunk => Iff.rfl
    · have hcreate : ∀ req, q ≠ .createObject req := by
        rintro req rfl
        exact hrule
      have hdelete : ∀ req, q ≠ .deleteObject req := by
        rintro req rfl
        exact hrule
      refine (hids.holds_cases hserves hcreate hdelete).imp_right ?_
      rintro ⟨req, rfl, hreplaces⟩
      exact ⟨req, rfl, hfate, hreplaces⟩
  | storage address q =>
    rw [delivers_storage_metadata h]
    exact .inl fun key chunk => Iff.rfl

end Step

/-! ## Runs -/

section Runs

variable [DecidableEq P] [DecidableEq ι] {svc : ClusterConfig} {reach : Str → Option ι}
  {t t' : Threads P Rpc Rpc.Reply (Cluster ι) RecoveryResult} {trace : List (Turn P ι)}

/-- While no update of it is served, a chunk is held as it is. -/
theorem run_holds (hrun : Run (Threads.Step (Cluster.Serves svc reach)) t trace t')
    (hids : t.state.metadata.ChunkIds)
    (hrule : ∀ step ∈ trace, ∃ history, Rule history step.label.event.request)
    {key : Str} {chunk : ChunkInfo} (hnone : ∀ step ∈ trace, ¬Updates step chunk.chunkId)
    (hholds : t.state.metadata.Holds key chunk) : t'.state.metadata.Holds key chunk := by
  induction hrun with
  | refl t => exact hholds
  | head hstep _ ih =>
    rw [List.forall_mem_cons] at hrule hnone
    refine ih (delivers_chunkIds hstep.delivers hids) hrule.2 hnone.2 ?_
    obtain ⟨history, hfirst⟩ := hrule.1
    rcases delivers_holds hstep.delivers hids hfirst with hsame | ⟨req, hreq, hfate, hreplaces⟩
    · exact (hsame key chunk).mpr hholds
    · refine (hreplaces.holds key chunk).mpr (.inr ⟨hholds, fun hid => ?_⟩)
      exact hnone.1 ⟨req, hreq, hfate, hid.symm⟩

/-- The chunk that a pass updates is stored as its scan has reported it, when nobody has
updated it since. -/
theorem run_reported {passes : P → RepairPass} {c : Cluster ι}
    (hids : c.metadata.ChunkIds)
    (hrun : Run (Threads.Step (Cluster.Serves svc reach))
      ⟨c, fun p => (passes p).program⟩ trace t') {before after : List (Turn P ι)}
    {step : Turn P ι} (htrace : trace = before ++ step :: after) (hfresh : UpToDate before step)
    {req : UpdateChunkRequest}
    (hreq : step.label.event.request = .metadata (.updateChunk req)) :
    ∃ key chunk replicas, step.before.Holds key chunk ∧ req = updateRequest chunk replicas := by
  have hkeeps := Run.keeps hrun (fun _ => []) (fun p => (passes p).keeps)
  have hrule := hkeeps before step after htrace
  rw [hreq] at hrule
  obtain ⟨pb, replicas, ⟨fate, resp, hmem, hpb⟩, rfl⟩ := hrule
  rw [List.nil_append] at hmem
  obtain ⟨scan, hscan, hlabel⟩ := mem_callsOf.mp hmem
  obtain ⟨early, later, rfl⟩ := List.append_of_mem hscan
  rw [htrace] at hrun
  obtain ⟨hbefore, -, -⟩ := hrun.split_step
  obtain ⟨hearly, hstep, hlater⟩ := hbefore.split_step
  have hscanned := run_chunkIds hearly hids
  -- the response to the scan has the chunk as it is stored then
  have hdelivers := hstep.delivers
  rw [hlabel] at hdelivers
  rcases delivers_metadata hdelivers with ⟨-, hnone, -⟩ | ⟨-, -, resp', hserves, -, hresp⟩
  · cases hnone
  obtain rfl : resp = resp' := by simpa using hresp
  obtain ⟨hsame, -⟩ := hserves.reported
  obtain ⟨obj, chunk, ⟨⟨key, hkey⟩, hchunk⟩, -, rfl⟩ := hserves.mem_reported.mp hpb
  rw [ChunkInfo.fromProto_toProto] at hreq ⊢
  refine ⟨key, chunk, replicas, ?_, rfl⟩
  refine run_holds hlater (delivers_chunkIds hdelivers hscanned) (fun other hother => ?_)
    (fun other hother => ?_) ?_
  · obtain ⟨a, b, rfl⟩ := List.append_of_mem hother
    exact ⟨_, hkeeps (early ++ scan :: a) other (b ++ step :: after) (by simp [htrace])⟩
  · exact (hfresh _ hreq).2 early scan later rfl (by rw [hlabel]) (by rw [hlabel]) other hother
  · have hholds : scan.source.state.metadata.Holds key chunk := ⟨obj, hkey, hchunk⟩
    rwa [← hsame] at hholds

/-- In every interleaving of passes that are all up to date when they update a chunk,
every step keeps the versions. -/
theorem versions_kept (passes : P → RepairPass) (c : Cluster ι)
    (hreached : c.metadata.Reached svc fun _ => True)
    (hrun : Run (Threads.Step (Cluster.Serves svc reach))
      ⟨c, fun p => (passes p).program⟩ trace t')
    (hfresh : ∀ before step after, trace = before ++ step :: after → UpToDate before step) :
    ∀ step ∈ trace, KeepsVersions step := by
  intro step hmem
  obtain ⟨before, after, htrace⟩ := List.append_of_mem hmem
  have hupToDate := hfresh before step after htrace
  have hrule := Run.keeps hrun (fun _ => []) (fun p => (passes p).keeps) before step after htrace
  have hrun' := hrun
  rw [htrace] at hrun'
  obtain ⟨hbefore, hstep, -⟩ := hrun'.split_step
  have hids : step.before.ChunkIds := run_chunkIds hbefore hreached.chunkIds
  rcases delivers_holds hstep.delivers hids hrule with hsame | ⟨req, hreq, -, hreplaces⟩
  · exact keepsVersions_of_holds hids hsame
  · obtain ⟨key, chunk, replicas, hholds, rfl⟩ :=
      run_reported hreached.chunkIds hrun htrace hupToDate hreq
    exact keepsVersions_of_replaces hids hreq (hupToDate _ hreq).1 hholds hreplaces

end Runs

/-! ## Two passes over one chunk -/

section TwoPasses

/-- One replica per chunk. -/
private def single : ClusterConfig := { replicationFactor := 1 }

private def entries : List (Str × Str) :=
  [(str "n1", str "n1:1"), (str "n2", str "n2:1")]

/-- A chunk whose only replica is on a node that has not registered again. -/
private def lone : ChunkInfo :=
  { chunkId := draw 1
    objectId := draw 0
    version := 1
    replicas := [{ nodeId := str "n0", address := str "n0:1" }] }

/-- The pass of a node, which repairs with itself. -/
private def passOf (entry : Str × Str) : RepairPass :=
  { cfg := single
    manager := { localNodeId := entry.1, localAddress := entry.2 }
    now := fun _ => 0 }

/-- What the pass of a node records. -/
private def movedTo (entry : Str × Str) : List ReplicaInfo :=
  (recordAll 1 [((newNode entry).toProto, true)] {}).replicas

private def anywhere : Str → Option Unit := fun _ => some ()

private theorem serves_scan_lone :
    Serves single .getUnderReplicatedChunks (oneObject single entries lone)
      { chunks := [lone.toProto] } (oneObject single entries lone) := by
  refine @serves_scan_oneObject single entries lone _ rfl ?_
  rw [lone, List.countP_singleton, oneObject_isLive (by decide)]
  decide

/-- The pass of either node can go as far as its update, and then still either can. -/
private theorem passOf_advances {entry : Str × Str} (hentry : entry ∈ entries)
    {c : Cluster Unit} (hmetadata : c.metadata = oneObject single entries lone)
    (hreads : (c.nodes ()).Reads (draw 1) []) :
    ∃ events next c', Advances (Cluster.Serves single anywhere) (passOf entry).program c events
        (.call (.metadata (.updateChunk (updateRequest lone (movedTo entry)))) next) c' ∧
      c'.metadata = oneObject single entries lone ∧ (c'.nodes ()).Reads (draw 1) [] ∧
      ∀ e ∈ events, ∀ req, e.request ≠ .metadata (.updateChunk req) := by
  have hselected : c.metadata.store.LeastUsed 1 [newNode entry] := by
    have hperm : (entry :: entries.erase entry).Perm entries :=
      (List.perm_cons_erase hentry).symm
    rw [hmetadata]
    exact leastUsed_registered rfl (by decide) hperm 1
  have hfetched : Fetched anywhere c [] lone [] :=
    ⟨_, List.mem_singleton_self _, by decide, (), rfl, hreads⟩
  obtain ⟨events, c', hturn, hoverwrites, hcopies⟩ := @repairChunk_advances Unit _ single single
    anywhere (passOf entry).manager 0 [] lone [] c [newNode entry]
    [((newNode entry).toProto, true)] hfetched (by decide) hselected (by simp) rfl
    (fun _ _ => ⟨(), rfl⟩) (Nat.le_refl 1)
  have hscan := serves_scan_lone
  rw [← hmetadata] at hscan
  obtain ⟨next, hadvances⟩ := @RepairPass.advances Unit _ single anywhere (passOf entry) rfl lone
    c c' events _ _ hscan hturn
  refine ⟨_, next, c', hadvances, hoverwrites.metadata.trans hmetadata, ?_, ?_⟩
  · rcases hoverwrites.files () (draw 1) with hfile | ⟨-, hwritten⟩
    · exact (StorageNode.reads_congr hfile).mpr hreads
    · exact (hwritten.stores (draw_length 1) (draw_length 0)).reads
  · intro e he req hreq
    rcases List.mem_cons.mp he with rfl | he
    · cases hreq
    · have hcopy := hcopies e he
      rw [hreq] at hcopy
      exact hcopy

private theorem lone_reached :
    (oneObject single entries lone).Reached single fun _ => True :=
  (oneObject_reached rfl rfl).mono fun _ _ => trivial

private theorem upToDate_of_last {P : Type} {trace before after : List (Turn P Unit)}
    {last step : Turn P Unit} (htrace : trace ++ [last] = before ++ step :: after)
    (hnone : ∀ t ∈ trace, ∀ req, t.label.event.request ≠ .metadata (.updateChunk req))
    (hversion : ∀ req, last.label.event.request = .metadata (.updateChunk req) →
      req.chunk.version ≠ 0) : UpToDate before step := by
  intro req hreq
  rcases after.eq_nil_or_concat with rfl | ⟨rest, t, rfl⟩
  · obtain ⟨rfl, hlast⟩ := List.append_inj' htrace rfl
    cases hlast
    refine ⟨hversion req hreq, ?_⟩
    rintro early scan later rfl - - other hother ⟨req', hreq', -⟩
    exact hnone other (by simp [hother]) req' hreq'
  · have hsplit : trace ++ [last] = (before ++ step :: rest) ++ [t] := by simpa using htrace
    obtain ⟨rfl, -⟩ := List.append_inj' hsplit rfl
    exact absurd hreq (hnone step (by simp) req)

/-- A pass that runs alone replaces the chunk by its next version. -/
theorem versions_kept_one_pass : ∃ (c : Cluster Unit)
    (t' : Threads Unit Rpc Rpc.Reply (Cluster Unit) RecoveryResult) (trace : List (Turn Unit Unit)),
    Run (Threads.Step (Cluster.Serves single anywhere))
        ⟨c, fun _ => (passOf (str "n1", str "n1:1")).program⟩ trace t' ∧
      (∃ step ∈ trace, Updates step (draw 1)) ∧ ∀ step ∈ trace, KeepsVersions step := by
  obtain ⟨n, hstores⟩ := @StorageNode.exists_stores (draw 1) [] (draw_length 1) (by decide)
  obtain ⟨events, next, c', hadvances, hmetadata, -, hevents⟩ :=
    @passOf_advances (str "n1", str "n1:1") (by decide)
      ⟨oneObject single entries lone, fun _ => n⟩ rfl hstores.reads
  let one : RepairPass := passOf (str "n1", str "n1:1")
  obtain ⟨trace, last, hrun, hlabels, -, hlast, -⟩ := hadvances.run_call ()
    (fun _ => one.program) rfl (.answered (.metadata (.updateChunk c'.metadata _ 0)))
  have hnone : ∀ t ∈ trace, ∀ req, t.label.event.request ≠ .metadata (.updateChunk req) := by
    intro t ht
    have hlabel := List.mem_map_of_mem (f := Transition.label) ht
    rw [hlabels] at hlabel
    obtain ⟨e, he, heq⟩ := List.mem_map.mp hlabel
    rw [← heq]
    exact hevents e he
  refine ⟨_, _, _, hrun, ⟨last, List.mem_append_right _ (List.mem_singleton_self _), _,
    by rw [hlast], by simp [hlast], rfl⟩, ?_⟩
  refine versions_kept (fun _ => one) _ lone_reached hrun
    fun before step after htrace => upToDate_of_last htrace hnone fun req hreq => ?_
  rw [hlast] at hreq
  cases hreq
  decide

/-- The update of the pass of a node, and the response. -/
private def applied (entry : Str × Str) (m : MetadataNode) : StatusResponse × MetadataNode :=
  let result := MetadataService.updateChunk 0 m.store (updateRequest lone (movedTo entry))
  (result.1, { m with store := result.2 })

private theorem serves_applied (entry : Str × Str) (m : MetadataNode) :
    Serves single (.updateChunk (updateRequest lone (movedTo entry))) m (applied entry m).1
      (applied entry m).2 :=
  .updateChunk m _ 0

/-- The new version that the pass of a node stores. -/
private def nextVersion (entry : Str × Str) : ChunkInfo :=
  { lone with version := 2, replicas := movedTo entry }

private theorem applied_replaces {entry : Str × Str} {m : MetadataNode} (hids : m.ChunkIds)
    {old : ChunkInfo} (hold : m.Holds (draw 0) old) (hid : old.chunkId = draw 1) :
    m.Replaces (applied entry m).2 (draw 0) (nextVersion entry) := by
  have hnew : (updateRequest lone (movedTo entry)).chunk.fromProto = nextVersion entry :=
    ChunkInfo.fromProto_toProto _
  rcases hids.update_cases (serves_applied entry m) with hreplaces | ⟨-, hnone⟩
  · rw [hnew] at hreplaces
    exact hreplaces
  · exact absurd ⟨old, hold, hid⟩ hnone

/-- One pass updates the chunk, and another one that has scanned before replaces the new
version by what it has computed from the old one. -/
theorem older_version_replaces_newer : ∃ (passes : Bool → RepairPass) (c : Cluster Unit)
    (t' : Threads Bool Rpc Rpc.Reply (Cluster Unit) RecoveryResult) (trace : List (Turn Bool Unit)),
    c.metadata.Reached single (fun _ => True) ∧
      Run (Threads.Step (Cluster.Serves single anywhere)) ⟨c, fun p => (passes p).program⟩ trace
        t' ∧
      ¬∀ step ∈ trace, KeepsVersions step := by
  obtain ⟨n, hstores⟩ := @StorageNode.exists_stores (draw 1) [] (draw_length 1) (by decide)
  let one : Str × Str := (str "n1", str "n1:1")
  let two : Str × Str := (str "n2", str "n2:1")
  let passes : Bool → RepairPass := fun p => if p then passOf two else passOf one
  -- the second pass waits before its update, and the first one updates the chunk
  obtain ⟨events₂, next₂, c₂, hsecond, hmetadata₂, hreads₂, -⟩ :=
    @passOf_advances two (by decide) ⟨oneObject single entries lone, fun _ => n⟩ rfl hstores.reads
  obtain ⟨events₁, next₁, c₁, hfirst, hmetadata₁, -, -⟩ :=
    @passOf_advances one (by decide) c₂ hmetadata₂ hreads₂
  let updated : Cluster Unit := { c₁ with metadata := (applied one c₁.metadata).2 }
  obtain ⟨trace₂, hwait, -⟩ := hsecond.run true (fun p => (passes p).program) rfl
  have hwaiting : Function.update (fun p => (passes p).program) true (.call _ next₂) false =
      (passOf one).program := Function.update_of_ne Bool.false_ne_true _ _
  have hcall₁ : Cluster.Serves single anywhere (.metadata _) c₁ _ updated :=
    .metadata (serves_applied one c₁.metadata)
  have hcall₂ : Cluster.Serves single anywhere (.metadata _) updated _ _ :=
    .metadata (serves_applied two updated.metadata)
  obtain ⟨trace₁, first, hupdate₁, -⟩ := hfirst.run_call false _ hwaiting (.answered hcall₁)
  have hupdate₂ := Threads.Step.call (p := true)
    (t := ⟨updated, Function.update (Function.update (fun p => (passes p).program) true
      (.call _ next₂)) false (next₁ (some (applied one c₁.metadata).1))⟩) rfl
    (.answered hcall₂)
  have hfull := hwait.trans (hupdate₁.trans (.single hupdate₂))
  refine ⟨passes, _, _, _, lone_reached, hfull, fun hkeeps => ?_⟩
  -- the version of the second pass takes the place of that of the first
  have hids : c₁.metadata.ChunkIds := hmetadata₁ ▸ lone_reached.chunkIds
  have hlone : c₁.metadata.Holds (draw 0) lone := by
    rw [hmetadata₁]
    exact oneObject_holds.mpr ⟨rfl, rfl⟩
  have hnewer := ((@applied_replaces one _ hids _ hlone rfl).holds (draw 0) _).mpr (.inl ⟨rfl, rfl⟩)
  have hreplaces := @applied_replaces two _ (hids.serve (serves_applied one _)) _ hnewer rfl
  have hlast := (hkeeps _ (List.mem_append_right _ (List.mem_append_right _
    (List.mem_singleton_self _)))).fresh lone (movedTo two) rfl (draw 0) _ hnewer rfl
    (by decide)
  rcases (hreplaces.holds _ _).mp hlast with ⟨-, heq⟩ | ⟨-, hne⟩
  · exact absurd (congrArg (fun c => c.replicas.map ReplicaInfo.nodeId) heq) (by decide)
  · exact hne rfl

end TwoPasses

end RepairPass

end StorageEngine
