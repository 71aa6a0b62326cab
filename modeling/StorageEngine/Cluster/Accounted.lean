import StorageEngine.Cluster.ChunkIds
import StorageEngine.Cluster.Files

/-!
# Chunks, in the metadata and on the machines

A chunk is in two places: the metadata lists the nodes that store it, and these have its
file.

* `Cluster.AgreesOn`: nothing that concerns one chunk differs.
* `Accounted`: the machines that have the file of a chunk are listed for it.
* `NoLeak`: all files are accounted for.
-/

namespace StorageEngine

open Lib.Remote MetadataStore MetadataService

/-! ## What concerns one chunk -/

section AgreesOn

variable {ι : Type}

/-- The clusters hold the same chunk of this id, in the registry and in the files. -/
structure Cluster.AgreesOn (id : Str) (c c' : Cluster ι) : Prop where
  holds : ∀ key chunk, chunk.chunkId = id →
    (c'.metadata.Holds key chunk ↔ c.metadata.Holds key chunk)
  files : ∀ i, (c'.nodes i).file id = (c.nodes i).file id

namespace Cluster.AgreesOn

variable {id : Str} {c c₁ c' : Cluster ι}

theorem refl (c : Cluster ι) : AgreesOn id c c := ⟨fun _ _ _ => Iff.rfl, fun _ => rfl⟩

theorem trans (h : AgreesOn id c c₁) (h' : AgreesOn id c₁ c') : AgreesOn id c c' :=
  ⟨fun key chunk hid => (h'.holds key chunk hid).trans (h.holds key chunk hid),
    fun i => (h'.files i).trans (h.files i)⟩

theorem readsAt (h : AgreesOn id c c') {reach : Str → Option ι} {address : Str} {data : Bytes} :
    c'.ReadsAt reach address id data ↔ c.ReadsAt reach address id data := by
  simp only [ReadsAt, StorageNode.reads_congr (h.files _)]

theorem of_sameObjects (h : SameObjects c.metadata.store c'.metadata.store)
    (hnodes : c'.nodes = c.nodes) : AgreesOn id c c' :=
  ⟨fun _ _ _ => MetadataNode.holds_same h, fun i => by rw [hnodes]⟩

/-- Writes of a chunk leave the other chunks. -/
theorem of_overwrites {chunkId objectId : Str} {data : Bytes}
    (h : Cluster.Overwrites chunkId objectId data c c') (hne : id ≠ chunkId) :
    AgreesOn id c c' := by
  refine ⟨fun key chunk _ => by rw [h.metadata], fun i => ?_⟩
  rcases h.files i id with hfile | ⟨heq, -⟩
  · exact hfile
  · exact absurd heq hne

theorem of_replaces {key : Str} {chunk : ChunkInfo} (h : c.metadata.Replaces c'.metadata key chunk)
    (hnodes : c'.nodes = c.nodes) (hne : id ≠ chunk.chunkId) : AgreesOn id c c' := by
  refine ⟨fun key' other hid => ?_, fun i => by rw [hnodes]⟩
  have hother : other.chunkId ≠ chunk.chunkId := hid ▸ hne
  rw [h.holds]
  constructor
  · rintro (⟨-, rfl⟩ | ⟨hold, -⟩)
    · exact absurd rfl hother
    · exact hold
  · exact fun hold => .inr ⟨hold, hother⟩

end Cluster.AgreesOn

end AgreesOn

/-! ## Updates -/

section Update

variable {ι : Type} [DecidableEq ι] {svc : ClusterConfig} {reach : Str → Option ι}
  {c c' : Cluster ι}

/-- An update is lost, or it replaces the chunk if there is one. -/
theorem delivers_update {req : UpdateChunkRequest} {fate : Fate}
    {r : Option (Rpc.Reply (.metadata (.updateChunk req)))} (hids : c.metadata.ChunkIds)
    (h : Delivers (Cluster.Serves svc reach) (.metadata (.updateChunk req)) fate c r c') :
    c'.nodes = c.nodes ∧ (c' = c ∧ (fate ≠ .requestLost →
        ¬∃ old, c.metadata.Holds req.objectId old ∧ old.chunkId = req.chunk.chunkId) ∨
      c.metadata.Replaces c'.metadata req.objectId req.chunk.fromProto) := by
  rcases delivers_metadata h with ⟨rfl, -, rfl⟩ | ⟨-, hnodes, resp, hserves, -, -⟩
  · exact ⟨rfl, .inl ⟨rfl, by simp⟩⟩
  · refine ⟨hnodes, ?_⟩
    rcases hids.update_cases hserves with hreplaces | ⟨hsame, hnone⟩
    · exact .inr hreplaces
    · exact .inl ⟨Cluster.ext hsame hnodes, fun _ => hnone⟩

end Update

/-! ## Files that are accounted for -/

section Accounted

variable {ι : Type}

/-- The machines that have a file for the chunk are among the replicas of a stored chunk. -/
def Accounted (reach : Str → Option ι) (c : Cluster ι) (id : Str) : Prop :=
  ∀ i, (c.nodes i).file id ≠ none → ∃ key chunk, c.metadata.Holds key chunk ∧
    chunk.chunkId = id ∧ ∃ rep ∈ chunk.replicas, reach rep.address = some i

/-- No file is on a machine that the metadata does not list for it. -/
def NoLeak (reach : Str → Option ι) (c : Cluster ι) : Prop :=
  ∀ id, Accounted reach c id

variable {reach : Str → Option ι} {c c' : Cluster ι} {id : Str}

theorem Accounted.congr (h : Accounted reach c id) (hsame : c.AgreesOn id c') :
    Accounted reach c' id := by
  intro i hfile
  rw [hsame.files] at hfile
  obtain ⟨key, chunk, hholds, hid, hlisted⟩ := h i hfile
  exact ⟨key, chunk, (hsame.holds key chunk hid).mpr hholds, hid, hlisted⟩

/-- A cluster without new files leaks nothing, if it holds all chunks that it held. -/
theorem NoLeak.mono (h : NoLeak reach c)
    (hfiles : ∀ i id, (c'.nodes i).file id ≠ none → (c.nodes i).file id ≠ none)
    (hholds : ∀ key chunk, c.metadata.Holds key chunk → c'.metadata.Holds key chunk) :
    NoLeak reach c' := by
  intro id i hfile
  obtain ⟨key, chunk, hheld, hid, hlisted⟩ := h id i (hfiles i id hfile)
  exact ⟨key, chunk, hholds key chunk hheld, hid, hlisted⟩

/-- The call is answered, unless its address leads nowhere, and a deletion has a reply: only
writes are refused. -/
def Undisturbed (reach : Str → Option ι) (e : Event Rpc Rpc.Reply) : Prop :=
  Responds reach e ∧ ∀ address q fate r, e = ⟨.storage address q, fate, r⟩ →
    reach address ≠ none → q.deleted ≠ none → r ≠ none

theorem Undisturbed.of_answered (q : MetadataRpc) (r : Option q.Reply) :
    Undisturbed reach ⟨.metadata q, .answered, r⟩ :=
  ⟨.inl rfl, fun _ _ _ _ heq => by cases heq⟩

end Accounted

end StorageEngine
