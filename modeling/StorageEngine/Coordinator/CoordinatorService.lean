import StorageEngine.Lib.Transition
import StorageEngine.Metadata.Store
import Mathlib.Logic.Function.Basic

/-!
# The coordinators

`src/coordinator/coordinator_service.cpp`: the state of a coordinator, its
handlers, and the steps of any number of coordinators that elect leaders.

* **A thread** is a stack of frames.  A frame is a running `start_election`, and
  the frame below it waits for the answer of the `RequestElection` call whose
  handler has started it.  A running `AnnounceLeader` is a thread of one frame.
* **A step** of a thread is one access to `is_leader_`, `generation_` or
  `current_leader_`, one call of `set_leader`, one call of `RequestElection`, or one
  sent announcement.  The threads of a coordinator interleave at these steps.
* **The mutex** is held by an `AnnounceLeader` from its first step to its return.
  `start_election` takes it for the assignment of `current_leader_` only.
* **Messages.**  An announcement can be delivered at any time after it was sent,
  any number of times or never.  A `RequestElection` call of `i` to `j` can fail if
  `lossy i j`: its request can be lost, or served after the caller has given up, or
  the caller can stop to wait for the handler.
-/

namespace StorageEngine

/-- The coordinators of a cluster.  The entries of `peer_addresses_` are given by
the coordinators that they lead to. -/
structure Coordinators (ι : Type) where
  nodeId : ι → Str
  peers : ι → List ι

/-- `node_priority`: the bytes of the id, as the digits of a 64-bit number. -/
def nodePriority (nodeId : Str) : UInt64 :=
  nodeId.foldl (fun priority c => priority * 256 + c.toUInt64) 0

structure CoordinatorState where
  isLeader : Bool := false
  generation : UInt64 := 0
  currentLeader : Str := []
  store : MetadataStore := {}

structure ElectionRequest where
  candidateId : Str := []
  priority : UInt64 := 0
  deriving DecidableEq, Repr

structure ElectionResponse where
  ack : Bool := false
  currentLeader : Str := []
  deriving DecidableEq, Repr

structure LeaderAnnounceRequest where
  leaderId : Str := []
  generation : UInt64 := 0
  deriving DecidableEq, Repr

structure LeaderAnnounceResponse where
  ack : Bool := false
  deriving DecidableEq, Repr

namespace Coordinator

/-! ## Handlers -/

/-- `RequestElection`: the response, and whether the handler starts an election
before it sends it. -/
def requestElection (nodeId : Str) (s : CoordinatorState) (req : ElectionRequest) :
    ElectionResponse × Bool :=
  if req.priority < nodePriority nodeId then
    ({ ack := true, currentLeader := s.currentLeader }, true)
  else ({ ack := false, currentLeader := s.currentLeader }, false)

/-- `AnnounceLeader`, when no other thread takes a step before it returns. -/
def announceLeader (nodeId : Str) (s : CoordinatorState) (req : LeaderAnnounceRequest) :
    LeaderAnnounceResponse × CoordinatorState :=
  ({ ack := true },
    { currentLeader := req.leaderId
      isLeader := decide (req.leaderId = nodeId)
      generation := req.generation
      store := s.store.setLeader req.leaderId req.generation })

/-! ## Elections -/

/-- The test of `start_election` on the outcome of a call, with none for a status
that is not OK. -/
def higherPeer (outcome : Option ElectionResponse) : Bool :=
  match outcome with
  | some resp => !resp.ack
  | none => false

/-- The next step of a `start_election` or of an `AnnounceLeader`. -/
inductive Stage (ι : Type) where
  /-- the calls to the peers that are left -/
  | asking (rest : List ι)
  /-- the handler of the peer is going to send the response -/
  | awaiting (peer : ι) (rest : List ι) (resp : ElectionResponse)
  /-- `is_leader_ = true` -/
  | claiming
  /-- `generation_++` -/
  | counting
  /-- `current_leader_ = node_id_` -/
  | naming
  /-- `generation_.load()`, for the argument of `set_leader` -/
  | loading
  /-- `set_leader`, with the generation that was loaded -/
  | recording (generation : UInt64)
  /-- the announcements to the peers that are left -/
  | announcing (rest : List ι)
  /-- `AnnounceLeader`: the assignment of `is_leader_` -/
  | following (req : LeaderAnnounceRequest)
  /-- `AnnounceLeader`: the assignment of `generation_` -/
  | adopting (req : LeaderAnnounceRequest)
  /-- `AnnounceLeader`: `set_leader` -/
  | confirming (req : LeaderAnnounceRequest)
  deriving DecidableEq, Repr

/-- The thread is in an `AnnounceLeader`, which holds the mutex. -/
def Stage.locked {ι : Type} : Stage ι → Bool
  | .following _ | .adopting _ | .confirming _ => true
  | _ => false

structure Frame (ι : Type) where
  self : ι
  stage : Stage ι
  deriving DecidableEq, Repr

variable {ι : Type}

/-- None of the threads holds the mutex of the coordinator. -/
def Unlocked (threads : List (List (Frame ι))) (i : ι) : Prop :=
  ∀ thread ∈ threads, ∀ f ∈ thread, f.self = i → f.stage.locked = false

/-- What a step of a thread does: the new state of its coordinator, the next stage,
with none for a return, and the announcement that it sends. -/
structure Effect (ι : Type) where
  state : CoordinatorState
  next : Option (Stage ι)
  sent : Option (ι × LeaderAnnounceRequest) := none

/-- The steps of `start_election` that are not the call of a peer, and those of
`AnnounceLeader` after the first one. -/
def advance (C : Coordinators ι) (i : ι) (s : CoordinatorState) : Stage ι → Option (Effect ι)
  | .asking [] => some { state := s, next := some .claiming }
  | .asking (_ :: _) => none
  | .awaiting _ rest resp =>
    some { state := s
           next := if higherPeer (some resp) = true then none else some (.asking rest) }
  | .claiming => some { state := { s with isLeader := true }, next := some .counting }
  | .counting => some { state := { s with generation := s.generation + 1 }, next := some .naming }
  | .naming => some { state := { s with currentLeader := C.nodeId i }, next := some .loading }
  | .loading => some { state := s, next := some (.recording s.generation) }
  | .recording generation =>
    some { state := { s with store := s.store.setLeader (C.nodeId i) generation }
           next := some (.announcing (C.peers i)) }
  | .announcing [] => some { state := s, next := none }
  | .announcing (peer :: rest) =>
    some { state := s
           next := some (.announcing rest)
           sent := some (peer, { leaderId := C.nodeId i, generation := s.generation }) }
  | .following req =>
    some { state := { s with isLeader := decide (req.leaderId = C.nodeId i) }
           next := some (.adopting req) }
  | .adopting req =>
    some { state := { s with generation := req.generation }, next := some (.confirming req) }
  | .confirming req =>
    some { state := { s with store := s.store.setLeader req.leaderId req.generation }
           next := none }

/-- What `advance` does, with its tests decided. -/
inductive Advance (C : Coordinators ι) (i : ι) (s : CoordinatorState) :
    Stage ι → Effect ι → Prop where
  | asked : Advance C i s (.asking []) { state := s, next := some .claiming }
  -- `break` after an answer without `ack`
  | refused {peer : ι} {rest : List ι} {resp : ElectionResponse} (hack : resp.ack = false) :
      Advance C i s (.awaiting peer rest resp) { state := s, next := none }
  | acked {peer : ι} {rest : List ι} {resp : ElectionResponse} (hack : resp.ack = true) :
      Advance C i s (.awaiting peer rest resp) { state := s, next := some (.asking rest) }
  | claiming :
      Advance C i s .claiming { state := { s with isLeader := true }, next := some .counting }
  | counting :
      Advance C i s .counting
        { state := { s with generation := s.generation + 1 }, next := some .naming }
  | naming :
      Advance C i s .naming
        { state := { s with currentLeader := C.nodeId i }, next := some .loading }
  | loading : Advance C i s .loading { state := s, next := some (.recording s.generation) }
  | recording {generation : UInt64} :
      Advance C i s (.recording generation)
        { state := { s with store := s.store.setLeader (C.nodeId i) generation }
          next := some (.announcing (C.peers i)) }
  | announced : Advance C i s (.announcing []) { state := s, next := none }
  | announcing {peer : ι} {rest : List ι} :
      Advance C i s (.announcing (peer :: rest))
        { state := s
          next := some (.announcing rest)
          sent := some (peer, { leaderId := C.nodeId i, generation := s.generation }) }
  | following {req : LeaderAnnounceRequest} :
      Advance C i s (.following req)
        { state := { s with isLeader := decide (req.leaderId = C.nodeId i) }
          next := some (.adopting req) }
  | adopting {req : LeaderAnnounceRequest} :
      Advance C i s (.adopting req)
        { state := { s with generation := req.generation }, next := some (.confirming req) }
  | confirming {req : LeaderAnnounceRequest} :
      Advance C i s (.confirming req)
        { state := { s with store := s.store.setLeader req.leaderId req.generation }
          next := none }

theorem advance_cases {C : Coordinators ι} {i : ι} {s : CoordinatorState} {stage : Stage ι}
    {e : Effect ι} (h : advance C i s stage = some e) : Advance C i s stage e := by
  cases stage with
  | asking rest =>
    cases rest with
    | nil =>
      cases h
      exact .asked
    | cons peer rest => cases h
  | awaiting peer rest resp =>
    cases h
    cases hack : resp.ack with
    | false =>
      rw [higherPeer, hack]
      exact .refused hack
    | true =>
      rw [higherPeer, hack]
      exact .acked hack
  | announcing rest =>
    cases rest with
    | nil =>
      cases h
      exact .announced
    | cons peer rest =>
      cases h
      exact .announcing
  | claiming | counting | naming | loading | recording | following | adopting | confirming =>
    cases h
    constructor

/-! ## Runs -/

/-- The request that a coordinator sends to its peers. -/
def electionRequest (C : Coordinators ι) (i : ι) : ElectionRequest :=
  { candidateId := C.nodeId i, priority := nodePriority (C.nodeId i) }

/-- The coordinators, the running threads, the requests whose callers have given up,
and the announcements. -/
structure Config (ι : Type) where
  state : ι → CoordinatorState
  threads : List (List (Frame ι)) := []
  requests : List (ι × ElectionRequest) := []
  announcements : List (ι × LeaderAnnounceRequest) := []

/-- No coordinator has taken part in an election yet. -/
def initial : Config ι where
  state _ := {}

/-- What a step is: an increment of `generation_`, the return of a
`start_election`, the assignment of `current_leader_` by an `AnnounceLeader`, or
another step. -/
inductive Event (ι : Type) where
  | counted (i : ι)
  | completed (i : ι)
  | announced (j : ι) (req : LeaderAnnounceRequest)
  | other
  deriving DecidableEq, Repr

/-- The event of a step of a thread. -/
def eventOf (i : ι) (stage : Stage ι) (next : Option (Stage ι)) : Event ι :=
  match stage, next with
  | .counting, _ => .counted i
  | .confirming _, _ => .other
  | _, none => .completed i
  | _, some _ => .other

/-- The election that a handler starts. -/
def started (C : Coordinators ι) (j : ι) (starts : Bool) : List (Frame ι) :=
  if starts = true then [⟨j, .asking (C.peers j)⟩] else []

inductive Step [DecidableEq ι] (C : Coordinators ι) (lossy : ι → ι → Prop) :
    Config ι → Event ι → Config ι → Prop where
  /-- `election_loop` -/
  | start {c : Config ι} (i : ι) (hfollower : (c.state i).isLeader = false) :
      Step C lossy c .other { c with threads := [⟨i, .asking (C.peers i)⟩] :: c.threads }
  | advance {c : Config ι} {before after : List (List (Frame ι))} {below : List (Frame ι)}
      {i : ι} {stage : Stage ι} {e : Effect ι}
      (hthread : c.threads = before ++ (⟨i, stage⟩ :: below) :: after)
      (hmutex : stage = .naming → Unlocked c.threads i)
      (heffect : Coordinator.advance C i (c.state i) stage = some e) :
      Step C lossy c (eventOf i stage e.next)
        { c with
          state := Function.update c.state i e.state
          threads := before ++ (e.next.toList.map (⟨i, ·⟩) ++ below) :: after
          announcements := e.sent.toList ++ c.announcements }
  | call {c : Config ι} {before after : List (List (Frame ι))} {below : List (Frame ι)}
      {i peer : ι} {rest : List ι} {resp : ElectionResponse} {starts : Bool}
      (hthread : c.threads = before ++ (⟨i, .asking (peer :: rest)⟩ :: below) :: after)
      (hserve : requestElection (C.nodeId peer) (c.state peer) (electionRequest C i) =
        (resp, starts)) :
      Step C lossy c .other
        { c with
          threads :=
            before ++ (started C peer starts ++ ⟨i, .awaiting peer rest resp⟩ :: below) :: after }
  | lose {c : Config ι} {before after : List (List (Frame ι))} {below : List (Frame ι)}
      {i peer : ι} {rest : List ι} (hlossy : lossy i peer)
      (hthread : c.threads = before ++ (⟨i, .asking (peer :: rest)⟩ :: below) :: after) :
      Step C lossy c .other
        { c with
          threads := before ++ (⟨i, .asking rest⟩ :: below) :: after
          requests := (peer, electionRequest C i) :: c.requests }
  | serveLate {c : Config ι} {j : ι} {req : ElectionRequest} {resp : ElectionResponse}
      {starts : Bool} (hrequest : (j, req) ∈ c.requests)
      (hserve : requestElection (C.nodeId j) (c.state j) req = (resp, starts)) :
      Step C lossy c .other { c with threads := started C j starts :: c.threads }
  | giveUp {c : Config ι} {before after : List (List (Frame ι))}
      {above below : List (Frame ι)} {i peer : ι} {rest : List ι} {resp : ElectionResponse}
      (hlossy : lossy i peer)
      (hthread : c.threads = before ++ (above ++ ⟨i, .awaiting peer rest resp⟩ :: below) :: after) :
      Step C lossy c .other
        { c with threads := before ++ above :: (⟨i, .asking rest⟩ :: below) :: after }
  /-- `AnnounceLeader` takes the mutex and assigns `current_leader_` -/
  | announce {c : Config ι} {j : ι} {req : LeaderAnnounceRequest}
      (hmessage : (j, req) ∈ c.announcements) (hmutex : Unlocked c.threads j) :
      Step C lossy c (.announced j req)
        { c with
          state := Function.update c.state j { c.state j with currentLeader := req.leaderId }
          threads := [⟨j, .following req⟩] :: c.threads }
  /-- the metadata service works on the same store -/
  | serve {c : Config ι} (i : ι) (store : MetadataStore)
      (hleader : store.leaderId = (c.state i).store.leaderId)
      (hgeneration : store.generation = (c.state i).store.generation) :
      Step C lossy c .other
        { c with state := Function.update c.state i { c.state i with store := store } }

end Coordinator

end StorageEngine
