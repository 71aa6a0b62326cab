import StorageEngine.Common.Types

/-!
# The configuration file

`Config::load_from_file` of `src/common/config.cpp`.  The lines are applied one by one.  A
numeric setting goes through `std::stoul`, which takes blanks, a sign and trailing text and
throws otherwise, and is then narrowed to 32 bits.  What the lines before a throw have set
stays set.
-/

namespace StorageEngine

structure Config where
  cluster : ClusterConfig := {}
  nodeId : Str := []
  storagePath : Str := str "./storage"
  listenAddress : Str := str "0.0.0.0:50053"
  advertiseAddress : Str := []
  metadataPersistPath : Str := str "./metadata_store.json"
  useRocksdb : Bool := false
  deriving DecidableEq, Repr

/-! ## `std::stoul` -/

/-- `std::isspace`. -/
def isSpace (c : UInt8) : Bool :=
  c == 32 || (9 ≤ c && c ≤ 13)

/-- `std::isdigit`. -/
def isDigit (c : UInt8) : Bool :=
  48 ≤ c && c ≤ 57

/-- The number that decimal digits spell. -/
def decimal (digits : Str) : ℕ :=
  digits.foldl (fun n c => n * 10 + (c.toNat - 48)) 0

inductive StoulError where
  | invalidArgument
  | outOfRange
  deriving DecidableEq, Repr

/-- `std::stoul`: blanks, a sign, and the digits up to the first other character.  With a
minus, the number is negated as an `unsigned long`. -/
def stoul (value : Str) : Except StoulError UInt64 :=
  let rest := value.dropWhile isSpace
  let negative := rest.head? == some 45
  let digits := (if negative || rest.head? == some 43 then rest.tail else rest).takeWhile isDigit
  if digits = [] then .error .invalidArgument
  else if 2 ^ 64 ≤ decimal digits then .error .outOfRange
  else
    let n := UInt64.ofNat (decimal digits)
    .ok (if negative then -n else n)

/-! ## Lines -/

/-- The lines that `std::getline` returns until the end of the file. -/
def getlines : Str → List Str
  | [] => []
  | c :: rest =>
    if c = 10 then [] :: getlines rest
    else
      match getlines rest with
      | [] => [[c]]
      | line :: lines => (c :: line) :: lines

/-- The key and the value of a line, with none for a line that is skipped. -/
def keyValue (line : Str) : Option (Str × Str) :=
  if line = [] ∨ line.head? = some 35 then none
  else if 61 ∈ line then
    some (line.takeWhile (· ≠ 61), (line.dropWhile (· ≠ 61)).tail)
  else none

/-- The settings that are numbers. -/
inductive Numeric where
  | replicationFactor
  | chunkSizeMb
  | heartbeatIntervalSec
  | heartbeatTimeoutSec
  deriving DecidableEq, Repr

def Numeric.key : Numeric → Str
  | .replicationFactor => str "replication_factor"
  | .chunkSizeMb => str "chunk_size_mb"
  | .heartbeatIntervalSec => str "heartbeat_interval_sec"
  | .heartbeatTimeoutSec => str "heartbeat_timeout_sec"

/-- The settings that are texts. -/
inductive Text where
  | metadataAddress
  | coordinatorAddress
  | nodeId
  | storagePath
  | listenAddress
  | advertiseAddress
  | metadataPersistPath
  deriving DecidableEq, Repr

/-- What a line assigns. -/
inductive Assignment where
  | number (setting : Numeric) (value : UInt32)
  | text (setting : Text) (value : Str)
  | loadBalance (value : LoadBalanceStrategy)
  | writeAck (value : WriteAckPolicy)
  | useRocksdb (value : Bool)
  deriving DecidableEq, Repr

def Config.assign (cfg : Config) : Assignment → Config
  | .number .replicationFactor n =>
    { cfg with cluster := { cfg.cluster with replicationFactor := n } }
  | .number .chunkSizeMb n => { cfg with cluster := { cfg.cluster with chunkSizeMb := n } }
  | .number .heartbeatIntervalSec n =>
    { cfg with cluster := { cfg.cluster with heartbeatIntervalSec := n } }
  | .number .heartbeatTimeoutSec n =>
    { cfg with cluster := { cfg.cluster with heartbeatTimeoutSec := n } }
  | .text .metadataAddress s => { cfg with cluster := { cfg.cluster with metadataAddress := s } }
  | .text .coordinatorAddress s =>
    { cfg with cluster := { cfg.cluster with coordinatorAddress := s } }
  | .text .nodeId s => { cfg with nodeId := s }
  | .text .storagePath s => { cfg with storagePath := s }
  | .text .listenAddress s => { cfg with listenAddress := s }
  | .text .advertiseAddress s => { cfg with advertiseAddress := s }
  | .text .metadataPersistPath s => { cfg with metadataPersistPath := s }
  | .loadBalance strategy => { cfg with cluster := { cfg.cluster with loadBalance := strategy } }
  | .writeAck policy => { cfg with cluster := { cfg.cluster with writeAck := policy } }
  | .useRocksdb b => { cfg with useRocksdb := b }

/-- The assignment of a number: the `unsigned long` is narrowed to 32 bits. -/
def numberAssignment (setting : Numeric) (value : Str) : Except StoulError (Option Assignment) := do
  let n ← stoul value
  return some (.number setting n.toUInt32)

/-- The assignment for a key, with none for a key or a value that is ignored. -/
def assignmentOf (key value : Str) : Except StoulError (Option Assignment) :=
  if key = str "replication_factor" then numberAssignment .replicationFactor value
  else if key = str "chunk_size_mb" then numberAssignment .chunkSizeMb value
  else if key = str "heartbeat_interval_sec" then numberAssignment .heartbeatIntervalSec value
  else if key = str "heartbeat_timeout_sec" then numberAssignment .heartbeatTimeoutSec value
  else if key = str "metadata_address" then .ok (some (.text .metadataAddress value))
  else if key = str "coordinator_address" then .ok (some (.text .coordinatorAddress value))
  else if key = str "node_id" then .ok (some (.text .nodeId value))
  else if key = str "storage_path" then .ok (some (.text .storagePath value))
  else if key = str "listen_address" then .ok (some (.text .listenAddress value))
  else if key = str "advertise_address" then .ok (some (.text .advertiseAddress value))
  else if key = str "metadata_persist_path" then .ok (some (.text .metadataPersistPath value))
  else if key = str "load_balance" then
    if value = str "round_robin" then .ok (some (.loadBalance .roundRobin))
    else if value = str "least_used" then .ok (some (.loadBalance .leastUsed))
    else if value = str "random" then .ok (some (.loadBalance .random))
    else .ok none
  else if key = str "write_ack" then
    .ok (some (.writeAck (if value = str "all" then .all else .majority)))
  else if key = str "use_rocksdb" then
    .ok (some (.useRocksdb (decide (value = str "true" ∨ value = str "1"))))
  else .ok none

def lineAssignment (line : Str) : Except StoulError (Option Assignment) :=
  match keyValue line with
  | none => .ok none
  | some (key, value) => assignmentOf key value

/-! ## `load_from_file` -/

/-- The loop over the lines: the exception that ends it, if there is one. -/
def loadLines : List Str → Config → Option StoulError × Config
  | [], cfg => (none, cfg)
  | line :: rest, cfg =>
    match lineAssignment line with
    | .error e => (some e, cfg)
    | .ok none => loadLines rest cfg
    | .ok (some assignment) => loadLines rest (cfg.assign assignment)

/-- `load_from_file`, with none for a file that cannot be opened. -/
def Config.loadFromFile (file : Option Str) (cfg : Config) : Option StoulError × Config :=
  match file with
  | none => (none, cfg)
  | some text => loadLines (getlines text) cfg

end StorageEngine
