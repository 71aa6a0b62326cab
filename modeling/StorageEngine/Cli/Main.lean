import StorageEngine.Client.Listing
import StorageEngine.Client.LocalFiles
import StorageEngine.Metadata.Snapshot

/-!
# The command line

`src/client/cli_main.cpp`: what the arguments ask for, and what a command prints and exits with.
-/

namespace StorageEngine.Cli

open MetadataStore StorageClient

/-! ## The arguments -/

/-- The loop over the arguments, from the metadata address and the other arguments so far.
`none` is a call for help. -/
def parseLoop : List Str → Str → List Str → Option (Str × List Str)
  | [], address, args => some (address, args)
  | [arg], address, args =>
    if arg = str "--help" ∨ arg = str "-h" then none else some (address, args ++ [arg])
  | arg :: value :: rest, address, args =>
    if arg = str "--metadata" then parseLoop rest value args
    else if arg = str "--help" ∨ arg = str "-h" then none
    else parseLoop (value :: rest) address (args ++ [arg])

/-- What a call of the program asks for. -/
inductive Command where
  | usage (exitCode : ℕ)
  | put (file : Str)
  | get (file output : Str)
  | delete (file : Str)
  | list (namePrefix : Str)
  | head (file : Str)
  deriving DecidableEq, Repr

/-- The dispatch on `args[0]`.  A command without its argument prints the usage. -/
def commandOf : List Str → Command
  | [] => .usage 1
  | [cmd] => if cmd = str "list" then .list [] else .usage 1
  | cmd :: file :: rest =>
    if cmd = str "put" then .put file
    else if cmd = str "get" then .get file (rest.headD (str "./" ++ file))
    else if cmd = str "delete" then .delete file
    else if cmd = str "list" then .list file
    else if cmd = str "head" then .head file
    else .usage 1

/-- The address of the metadata service, and the command. -/
def parse (argv : List Str) : Str × Command :=
  match parseLoop argv (str "localhost:50051") [] with
  | none => (str "localhost:50051", .usage 0)
  | some (address, args) => (address, commandOf args)

example : parse [str "get", str "--metadata", str "m:1", str "a.txt"] =
    (str "m:1", .get (str "a.txt") (str "./a.txt")) := by decide

/-! ## What is printed -/

structure Report where
  exitCode : ℕ := 0
  out : Str := []
  err : Str := []
  deriving DecidableEq, Repr

/-- `print_usage` -/
def usageText : Str :=
  str "Distributed Storage Engine CLI\n\n" ++ str "Usage:\n" ++
    str "  storage put <file>              Upload a file\n" ++
    str "  storage get <file> [output]     Download a file\n" ++
    str "  storage delete <file>           Delete a file\n" ++
    str "  storage list [prefix]           List objects\n" ++
    str "  storage head <file>             Get object metadata\n" ++ str "\nOptions:\n" ++
    str "  --metadata <host:port>          Metadata service address (default: localhost:50051)\n"

def usageReport (exitCode : ℕ) : Report :=
  { exitCode := exitCode, out := usageText }

def putReport (file : Str) (result : PutResult) : Report :=
  if result.success then
    { out := str "Uploaded: " ++ file ++ str " (id=" ++ result.objectId ++ str ")\n" }
  else { exitCode := 1, err := str "Upload failed: " ++ result.message ++ str "\n" }

def getReport (file output : Str) (result : GetResult) : Report :=
  if result.success then
    { out := str "Downloaded: " ++ file ++ str " -> " ++ output ++ str " (" ++
        MetadataStore.decimal result.data.length ++ str " bytes)\n" }
  else { exitCode := 1, err := str "Download failed: " ++ result.message ++ str "\n" }

def deleteReport (file : Str) (ok : Bool) : Report :=
  if ok then { out := str "Deleted: " ++ file ++ str "\n" }
  else { exitCode := 1, err := str "Delete failed\n" }

/-- `std::left << std::setw(width) << text` -/
def setwLeft (width : ℕ) (text : Str) : Str :=
  text ++ List.replicate (width - text.length) 32

def listLine (info : ObjectInfo) : Str :=
  setwLeft 40 info.filename ++ setwLeft 15 (MetadataStore.decimal info.size.toNat) ++
    info.owner ++ str "\n"

def listReport (objects : List ObjectInfo) : Report :=
  { out := setwLeft 40 (str "FILENAME") ++ setwLeft 15 (str "SIZE") ++ str "OWNER\n" ++
      List.replicate 70 45 ++ str "\n" ++ objects.flatMap listLine ++ str "\nTotal: " ++
      MetadataStore.decimal objects.length ++ str " objects\n" }

def headReport (file : Str) : Option ObjectInfo → Report
  | none => { exitCode := 1, err := str "Not found: " ++ file ++ str "\n" }
  | some info =>
    { out := str "Filename:    " ++ info.filename ++ str "\n" ++
        str "Object ID:   " ++ info.objectId ++ str "\n" ++
        str "Size:        " ++ MetadataStore.decimal info.size.toNat ++ str " bytes\n" ++
        str "Replicas:    " ++ MetadataStore.decimal info.replicationFactor.toNat ++ str "\n" ++
        str "Version:     " ++ MetadataStore.decimal info.version.toNat ++ str "\n" ++
        str "Owner:       " ++ info.owner ++ str "\n" }

end StorageEngine.Cli
