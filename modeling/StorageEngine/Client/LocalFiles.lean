import Mathlib.Data.List.TakeWhile
import StorageEngine.Client.StorageClient

/-!
# Uploads and downloads of local files

`put_file` and `get_file`.  The machine of the client has its own files, and only what becomes
of the one file that a call opens is passed in and out.

A file that is opened for reading is read to its end.
-/

namespace StorageEngine

open Lib.Remote

/-- The outcome of the file calls of a client: whether the stream opens for reading or for
writing, and how much of what is written stays in the file if the write fails. -/
structure LocalIO where
  readable : Bool := true
  writable : Bool := true
  written : Option ℕ := none
  deriving DecidableEq, Repr

/-- The bytes of a file, if it exists and can be opened. -/
def LocalIO.read (io : LocalIO) (contents : Option Bytes) : Option Bytes :=
  if io.readable then contents else none

namespace StorageClient

/-- The part of a path behind the last `/` or `\`. -/
def fileNameOf (filepath : Str) : Str :=
  (filepath.reverse.takeWhile fun char => char ≠ 47 && char ≠ 92).reverse

example : fileNameOf (str "dir/sub\\a.txt") = str "a.txt" := by decide

/-- `put_file`, for the contents of the file at the path. -/
def putFile (cfg : ClusterConfig) (io : LocalIO) (contents : Option Bytes) (filepath : Str) :
    ClusterProg PutResult :=
  match io.read contents with
  | none => return { message := str "Cannot open file: " ++ filepath }
  | some data => put cfg (fileNameOf filepath) data (str "default")

/-- What `get_file` does with a download.  The second result is what it leaves in the output
file, if it opens it. -/
def saveResult (io : LocalIO) (outputPath : Str) (result : GetResult) :
    GetResult × Option Bytes :=
  if result.success = false then (result, none)
  else if io.writable = false then
    ({ result with success := false, message := str "Cannot write to " ++ outputPath }, none)
  else (result, some (contentsAfter io.written result.data))

def getFile (io : LocalIO) (filename outputPath : Str) :
    ClusterProg (GetResult × Option Bytes) := do
  let result ← get filename
  return saveResult io outputPath result

end StorageClient

end StorageEngine
