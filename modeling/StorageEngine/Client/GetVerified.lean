import StorageEngine.Chunk.Canonical
import StorageEngine.Client.StorageClient
import StorageEngine.Cluster.Calls

/-!
# What a download verifies

`read_chunk_from_replicas` compares the recorded checksum with the one in the header of
the reply, and not with the data of the reply.

* `GetTrace`: the replies that a run of `get` takes its data from, and those that it
  passes over.
* `get_verified_iff`: the data has the recorded checksums if and only if the headers of
  the replies that are taken have the checksums of their data.
* `get_verified_of_stores`: this is so when the replies come from chunk stores, which
  check the file that they read.
-/

namespace StorageEngine.StorageClient

open Lib.Remote

/-! ## The replies that are taken -/

/-- A reply that `read_chunk_from_replicas` takes the data of. -/
def Accepted (chunk : ChunkInfo) (resp : ReadChunkResponse) : Prop :=
  resp.success = true ∧ (chunk.checksum ≠ [] → resp.header.checksum = chunk.checksum)

/-- The event of a read from a replica. -/
def readEvent (chunk : ChunkInfo) (rep : ReplicaInfo) (fate : Fate)
    (reply : Option ReadChunkResponse) : Event Rpc Rpc.Reply :=
  ⟨.storage rep.address (.readChunk { chunkId := chunk.chunkId }), fate, reply⟩

/-- The reads of one chunk: replicas are passed over until a reply is taken. -/
inductive ChunkRead (chunk : ChunkInfo) :
    List ReplicaInfo → List (Event Rpc Rpc.Reply) → Option ReadChunkResponse → Prop where
  | exhausted : ChunkRead chunk [] [] none
  | skipped {rep : ReplicaInfo} {reps : List ReplicaInfo} {fate : Fate}
      {reply : Option ReadChunkResponse} {trace : List (Event Rpc Rpc.Reply)}
      {result : Option ReadChunkResponse} (hskip : ∀ resp, reply = some resp → ¬Accepted chunk resp)
      (hrest : ChunkRead chunk reps trace result) :
      ChunkRead chunk (rep :: reps) (readEvent chunk rep fate reply :: trace) result
  | taken {rep : ReplicaInfo} {reps : List ReplicaInfo} {fate : Fate} {resp : ReadChunkResponse}
      (haccepted : Accepted chunk resp) :
      ChunkRead chunk (rep :: reps) [readEvent chunk rep fate (some resp)] (some resp)

/-- The reads of the chunks in turn, up to one that no replica gives, with the replies
that are taken. -/
inductive ObjectRead : List ChunkMetadata → List (Event Rpc Rpc.Reply) →
    List ReadChunkResponse → Prop where
  | complete : ObjectRead [] [] []
  | failed {chunkPb : ChunkMetadata} {rest : List ChunkMetadata}
      {trace : List (Event Rpc Rpc.Reply)}
      (hread : ChunkRead chunkPb.fromProto chunkPb.fromProto.replicas trace none) :
      ObjectRead (chunkPb :: rest) trace []
  | next {chunkPb : ChunkMetadata} {rest : List ChunkMetadata}
      {first trace : List (Event Rpc Rpc.Reply)} {resp : ReadChunkResponse}
      {replies : List ReadChunkResponse}
      (hread : ChunkRead chunkPb.fromProto chunkPb.fromProto.replicas first (some resp))
      (hrest : ObjectRead rest trace replies) :
      ObjectRead (chunkPb :: rest) (first ++ trace) (resp :: replies)

/-- The calls of `get`: the chunks of the object that is located, if one is, and the
replies that are taken for them. -/
inductive GetTrace (filename : Str) : List (Event Rpc Rpc.Reply) → List ChunkMetadata →
    List ReadChunkResponse → Prop where
  | notFound {fate : Fate} {reply : Option LocateObjectResponse}
      (hfailed : ∀ resp, reply = some resp → resp.success = false) :
      GetTrace filename [⟨.metadata (.locateObject { filename := filename }), fate, reply⟩] [] []
  | found {fate : Fate} {resp : LocateObjectResponse} {reads : List (Event Rpc Rpc.Reply)}
      {replies : List ReadChunkResponse} (hfound : resp.success = true)
      (hreads : ObjectRead resp.object.chunks reads replies) :
      GetTrace filename
        (⟨.metadata (.locateObject { filename := filename }), fate, some resp⟩ :: reads)
        resp.object.chunks replies

section Runs

variable {σ : Type} {serve : (q : Rpc) → σ → Option q.Reply → σ → Prop} {s s' : σ}
  {trace : List (Event Rpc Rpc.Reply)}

theorem chunkRead_of_runs {chunk : ChunkInfo} {reps : List ReplicaInfo} {result : Option Bytes}
    (hrun : Runs serve (readChunkFromReplicas chunk reps) s trace result s') :
    ∃ reply, ChunkRead chunk reps trace reply ∧ result = reply.map ReadChunkResponse.data := by
  induction reps generalizing s trace with
  | nil =>
    obtain ⟨rfl, rfl, -⟩ := runs_done.mp hrun
    exact ⟨none, .exhausted, rfl⟩
  | cons rep reps ih =>
    obtain ⟨fate, r, s₁, rest, -, hrest, rfl⟩ := runs_rpc.mp hrun
    cases r with
    | none =>
      obtain ⟨reply, hread, hresult⟩ := ih hrest
      exact ⟨reply, .skipped (by simp) hread, hresult⟩
    | some resp =>
      by_cases haccepted : Accepted chunk resp
      · have hmatch : ¬(chunk.checksum ≠ [] ∧ resp.header.checksum ≠ chunk.checksum) :=
          fun h => h.2 (haccepted.2 h.1)
        simp only [haccepted.1, Bool.true_eq_false, if_false, if_neg hmatch] at hrest
        obtain ⟨rfl, rfl, -⟩ := runs_done.mp hrest
        exact ⟨some resp, .taken haccepted, rfl⟩
      · have hskipped : Runs serve (readChunkFromReplicas chunk reps) s₁ rest result s' := by
          by_cases hsuccess : resp.success = false
          · simpa only [if_pos hsuccess] using hrest
          · have hmatch : chunk.checksum ≠ [] ∧ resp.header.checksum ≠ chunk.checksum := by
              rw [Accepted, not_and, not_forall] at haccepted
              obtain ⟨hne, hheader⟩ := haccepted (Bool.eq_true_of_not_eq_false hsuccess)
              exact ⟨hne, hheader⟩
            simpa only [if_neg hsuccess, if_pos hmatch] using hrest
        obtain ⟨reply, hread, hresult⟩ := ih hskipped
        refine ⟨reply, .skipped (fun resp' hresp' => ?_) hread, hresult⟩
        cases hresp'
        exact haccepted

theorem objectRead_of_runs {chunks : List ChunkMetadata} {read : Bytes}
    {result : Option Str × Bytes} (hrun : Runs serve (getChunks chunks read) s trace result s') :
    ∃ replies, ObjectRead chunks trace replies ∧
      result.2 = read ++ (replies.map ReadChunkResponse.data).flatten ∧
      (result.1 = none → replies.length = chunks.length) := by
  induction chunks generalizing read s trace with
  | nil =>
    obtain ⟨rfl, rfl, -⟩ := runs_done.mp hrun
    exact ⟨[], .complete, by simp, fun _ => rfl⟩
  | cons chunkPb rest ih =>
    obtain ⟨r, s₁, first, last, hfirst, hlast, rfl⟩ := runs_bind.mp hrun
    obtain ⟨reply, hread, rfl⟩ := chunkRead_of_runs hfirst
    cases reply with
    | none =>
      obtain ⟨rfl, rfl, -⟩ := runs_done.mp hlast
      rw [List.append_nil]
      exact ⟨[], .failed hread, by simp, by simp⟩
    | some resp =>
      obtain ⟨replies, hrest, hdata, hlength⟩ := ih hlast
      refine ⟨resp :: replies, .next hread hrest, ?_, fun hnone => ?_⟩
      · rw [hdata, List.map_cons, List.flatten_cons, List.append_assoc]
      · rw [List.length_cons, List.length_cons, hlength hnone]

/-- Every run of `get` takes the replies of its trace. -/
theorem getTrace_of_runs {filename : Str} {result : GetResult}
    (hrun : Runs serve (get filename) s trace result s') :
    ∃ chunks replies, GetTrace filename trace chunks replies ∧
      result.data = (replies.map ReadChunkResponse.data).flatten ∧
      (result.success = true → replies.length = chunks.length) := by
  obtain ⟨fate, r, s₁, rest, -, hrest, rfl⟩ := runs_rpc.mp hrun
  cases r with
  | none =>
    obtain ⟨rfl, rfl, -⟩ := runs_done.mp hrest
    exact ⟨[], [], .notFound (by simp), rfl, by simp⟩
  | some resp =>
    cases hfound : resp.success with
    | false =>
      simp only [hfound, if_true] at hrest
      obtain ⟨rfl, rfl, -⟩ := runs_done.mp hrest
      refine ⟨[], [], .notFound (fun resp' hresp' => ?_), rfl, by simp⟩
      cases hresp'
      exact hfound
    | true =>
      simp only [hfound, Bool.true_eq_false, if_false] at hrest
      obtain ⟨⟨failure, data⟩, s₂, reads, last, hreads, hlast, rfl⟩ := runs_bind.mp hrest
      obtain ⟨replies, hobject, hdata, hlength⟩ := objectRead_of_runs hreads
      refine ⟨resp.object.chunks, replies, ?_, ?_⟩
      · have hnil : last = [] := by
          cases failure <;> exact (runs_done.mp hlast).1
        rw [hnil, List.append_nil]
        exact .found hfound hobject
      · cases failure with
        | some message =>
          obtain ⟨-, rfl, -⟩ := runs_done.mp hlast
          exact ⟨hdata, by simp⟩
        | none =>
          obtain ⟨-, rfl, -⟩ := runs_done.mp hlast
          exact ⟨hdata, fun _ => hlength rfl⟩

end Runs

/-! ## Verified downloads -/

/-- Every chunk with a recorded checksum is taken from bytes that have it. -/
def Verified (chunks : List ChunkMetadata) (replies : List ReadChunkResponse) : Prop :=
  ∀ p ∈ chunks.zip replies, p.1.checksum ≠ [] → Checksum.sha256 p.2.data = p.1.checksum

/-- Every reply that is taken for a chunk with a recorded checksum has the checksum of its
own bytes in the header. -/
def Honest (chunks : List ChunkMetadata) (replies : List ReadChunkResponse) : Prop :=
  ∀ p ∈ chunks.zip replies, p.1.checksum ≠ [] → p.2.header.checksum = Checksum.sha256 p.2.data

/-- A reply is taken for its header. -/
theorem ChunkRead.header {chunk : ChunkInfo} {reps : List ReplicaInfo}
    {trace : List (Event Rpc Rpc.Reply)} {resp : ReadChunkResponse}
    (h : ChunkRead chunk reps trace (some resp)) : Accepted chunk resp := by
  generalize hresult : some resp = result at h
  induction h with
  | exhausted => cases hresult
  | skipped _ _ ih => exact ih hresult
  | taken haccepted =>
    cases hresult
    exact haccepted

theorem ObjectRead.header {chunks : List ChunkMetadata} {trace : List (Event Rpc Rpc.Reply)}
    {replies : List ReadChunkResponse} (h : ObjectRead chunks trace replies) :
    ∀ p ∈ chunks.zip replies, Accepted p.1.fromProto p.2 := by
  induction h with
  | complete => simp
  | failed _ => simp
  | next hread _ ih =>
    rw [List.zip_cons_cons, List.forall_mem_cons]
    exact ⟨hread.header, ih⟩

theorem GetTrace.header {filename : Str} {trace : List (Event Rpc Rpc.Reply)}
    {chunks : List ChunkMetadata} {replies : List ReadChunkResponse}
    (h : GetTrace filename trace chunks replies) :
    ∀ p ∈ chunks.zip replies, Accepted p.1.fromProto p.2 := by
  cases h with
  | notFound _ => simp
  | found _ hreads => exact hreads.header

/-- Honest replies are verified. -/
theorem GetTrace.verified {filename : Str} {trace : List (Event Rpc Rpc.Reply)}
    {chunks : List ChunkMetadata} {replies : List ReadChunkResponse}
    (h : GetTrace filename trace chunks replies) (hhonest : Honest chunks replies) :
    Verified chunks replies := by
  intro p hp hne
  rw [← hhonest p hp hne]
  exact (h.header p hp).2 hne

/-- Whatever the services answer, a run of `get` puts its data together from the replies
that it takes, and these have the recorded checksums if and only if each came with a
header that has the checksum of its data. -/
theorem get_verified_iff {σ : Type} {serve : (q : Rpc) → σ → Option q.Reply → σ → Prop}
    {s s' : σ} {filename : Str} {trace : List (Event Rpc Rpc.Reply)} {result : GetResult}
    (hrun : Runs serve (get filename) s trace result s') :
    (∃ chunks replies, GetTrace filename trace chunks replies ∧
      result.data = (replies.map ReadChunkResponse.data).flatten ∧
      (result.success = true → replies.length = chunks.length)) ∧
    ∀ chunks replies, GetTrace filename trace chunks replies →
      (Verified chunks replies ↔ Honest chunks replies) := by
  refine ⟨getTrace_of_runs hrun, fun chunks replies htrace =>
    ⟨fun h p hp hne => ?_, fun h p hp hne => ?_⟩⟩
  · rw [h p hp hne]
    exact (htrace.header p hp).2 hne
  · exact htrace.verified h p hp hne

section OneChunk

/-- A located object of one chunk with this checksum. -/
private def located (checksum : Str) : LocateObjectResponse :=
  { success := true
    object := { chunks := [{ checksum := checksum, replicas := [{ address := str "n1:1" }] }] } }

/-- A reply with this data, and with this checksum in the header. -/
private def reply (checksum : Str) (data : Bytes) : ReadChunkResponse :=
  { success := true, header := { checksum := checksum }, data := data }

/-- A download of the object, with this reply to its only read. -/
private theorem get_located (checksum : Str) (data : Bytes) :
    ∃ trace result, Runs (fun _ (_ : Unit) _ _ => True) (get (str "a.txt")) () trace result () ∧
      result.success = true ∧ result.data = data ∧
      GetTrace (str "a.txt") trace (located checksum).object.chunks [reply checksum data] := by
  have hread : Runs (fun (q : Rpc) (_ : Unit) (_ : Option q.Reply) (_ : Unit) => True)
      (getChunks (located checksum).object.chunks []) ()
      [⟨.storage (str "n1:1") (.readChunk {}), .answered, some (reply checksum data)⟩]
      (none, data) () := by
    refine runs_bind.mpr ⟨some data, (), _, [], runs_rpc.mpr
      ⟨.answered, some (reply checksum data), (), [], .answered trivial, ?_, rfl⟩, .done _ _, rfl⟩
    simp only [reply, Bool.true_eq_false, if_false, ChunkMetadata.fromProto, ne_eq,
      not_true_eq_false, and_false]
    exact .done _ _
  refine ⟨_, _, runs_rpc.mpr ⟨.answered, some (located checksum), (), _, .answered trivial,
    runs_bind.mpr ⟨_, _, _, [], hread, .done _ _, rfl⟩, rfl⟩, rfl, rfl, ?_⟩
  exact .found rfl (@ObjectRead.next _ _ [_] _ _ _ (.taken ⟨rfl, fun _ => rfl⟩) .complete)

private theorem honest_reply {checksum : Str} {data : Bytes}
    (hchecksum : checksum = Checksum.sha256 data) :
    Honest (located checksum).object.chunks [reply checksum data] := by
  intro p hp _
  rw [List.mem_singleton.mp hp]
  exact hchecksum

private theorem unverified_reply {checksum : Str} {data : Bytes} (hne : checksum ≠ [])
    (hother : Checksum.sha256 data ≠ checksum) :
    ¬Verified (located checksum).object.chunks [reply checksum data] := by
  intro hverified
  obtain ⟨chunkPb, hchunks, hchecksum⟩ : ∃ chunkPb,
      (located checksum).object.chunks = [chunkPb] ∧ chunkPb.checksum = checksum := ⟨_, rfl, rfl⟩
  rw [hchunks] at hverified
  have hsame := hverified (chunkPb, reply checksum data) List.mem_cons_self
  rw [hchecksum] at hsame
  exact hother (hsame hne)

/-- The checksum that is recorded. -/
private def byteChecksum : Str := Checksum.sha256 [7]

private theorem byteChecksum_ne_nil : byteChecksum ≠ [] := by
  rw [byteChecksum, ← List.length_pos_iff, Checksum.sha256_length]
  decide

private theorem other_byte : Checksum.sha256 [8] ≠ byteChecksum := Checksum.sha256_eight_ne_seven

/-- A download of the byte that the checksum was recorded for. -/
theorem get_verified_one_byte : ∃ trace result,
    Runs (fun _ (_ : Unit) _ _ => True) (get (str "a.txt")) () trace result () ∧
      result.data = [7] ∧
      Verified (located byteChecksum).object.chunks [reply byteChecksum [7]] := by
  obtain ⟨trace, result, hrun, -, hdata, htrace⟩ := get_located byteChecksum [7]
  exact ⟨trace, result, hrun, hdata, ((get_verified_iff hrun).2 _ _ htrace).mpr
    (honest_reply byteChecksum.eq_1)⟩

/-- A reply is taken for the checksum in its header, whatever its data: the download is of
another byte. -/
theorem get_takes_other_byte : ∃ trace result,
    Runs (fun _ (_ : Unit) _ _ => True) (get (str "a.txt")) () trace result () ∧
      result.success = true ∧ result.data = [8] ∧
      GetTrace (str "a.txt") trace (located byteChecksum).object.chunks
        [reply byteChecksum [8]] ∧
      ¬Verified (located byteChecksum).object.chunks [reply byteChecksum [8]] := by
  obtain ⟨trace, result, hrun, hsuccess, hdata, htrace⟩ := get_located byteChecksum [8]
  exact ⟨trace, result, hrun, hsuccess, hdata, htrace,
    unverified_reply byteChecksum_ne_nil other_byte⟩

end OneChunk

/-! ## Replies of chunk stores -/

/-- A reply to a read has the checksum of its data in the header. -/
def HonestReply : (q : Rpc) → q.Reply → Prop
  | .storage _ (.readChunk _), resp =>
    resp.success = true → resp.header.checksum = Checksum.sha256 resp.data
  | .storage _ (.writeChunk _), _ | .storage _ (.replicateChunk _), _
  | .storage _ (.deleteChunk _), _ | .metadata _, _ => True

/-- A chunk store reads a file only if its header has the checksum of the payload. -/
theorem serves_honest {ι : Type} [DecidableEq ι] {svc : ClusterConfig} {reach : Str → Option ι}
    {q : Rpc} {c c' : Cluster ι} {r : q.Reply}
    (h : Cluster.Serves svc reach q c (some r) c') : HonestReply q r := by
  cases q with
  | metadata q => trivial
  | storage address q =>
    obtain ⟨i, n, -, hserves, -⟩ := h.storage_cases
    cases q with
    | writeChunk req => trivial
    | replicateChunk req => trivial
    | deleteChunk req => trivial
    | readChunk req =>
      intro hsuccess
      generalize hreply : some r = reply at hserves
      cases hserves with
      | readChunk =>
        cases hreply
        cases hread : (c.nodes i).1.readChunk (c.nodes i).2 req.chunkId with
        | none => simp [hread, StorageService.readResponse] at hsuccess
        | some chunk =>
          rw [ChunkStore.readChunk] at hread
          split at hread
          · cases hread
          · exact (ChunkFormat.serialize_of_deserialize hread).1.checksum

section Stores

variable {trace : List (Event Rpc Rpc.Reply)}
  (hhonest : ∀ e ∈ trace, ∀ r, e.reply = some r → HonestReply e.request r)

include hhonest

theorem ChunkRead.honest {chunk : ChunkInfo} {reps : List ReplicaInfo}
    {resp : ReadChunkResponse} (h : ChunkRead chunk reps trace (some resp)) :
    resp.header.checksum = Checksum.sha256 resp.data := by
  generalize hresult : some resp = result at h
  induction h with
  | exhausted => cases hresult
  | skipped _ _ ih => exact ih (fun e he => hhonest e (List.mem_cons_of_mem _ he)) hresult
  | taken haccepted =>
    cases hresult
    exact hhonest _ List.mem_cons_self resp rfl haccepted.1

theorem ObjectRead.honest {chunks : List ChunkMetadata} {replies : List ReadChunkResponse}
    (h : ObjectRead chunks trace replies) : Honest chunks replies := by
  induction h with
  | complete => simp [Honest]
  | failed _ => simp [Honest]
  | next hread _ ih =>
    rw [Honest, List.zip_cons_cons, List.forall_mem_cons]
    exact ⟨fun _ => hread.honest fun e he => hhonest e (List.mem_append_left _ he),
      ih fun e he => hhonest e (List.mem_append_right _ he)⟩

end Stores

/-- A download from chunk stores is verified. -/
theorem get_verified_of_stores {ι : Type} [DecidableEq ι] {svc : ClusterConfig}
    {reach : Str → Option ι} {c c' : Cluster ι} {filename : Str}
    {trace : List (Event Rpc Rpc.Reply)} {result : GetResult}
    (hrun : Runs (Cluster.Serves svc reach) (get filename) c trace result c')
    {chunks : List ChunkMetadata} {replies : List ReadChunkResponse}
    (htrace : GetTrace filename trace chunks replies) : Verified chunks replies := by
  have hhonest := hrun.trace_served fun _ _ _ _ => serves_honest
  refine htrace.verified ?_
  cases htrace with
  | notFound _ => simp [Honest]
  | found _ hreads => exact hreads.honest fun e he => hhonest e (List.mem_cons_of_mem _ he)

end StorageEngine.StorageClient
