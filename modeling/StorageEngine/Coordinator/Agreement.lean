import StorageEngine.Coordinator.Generation

/-!
# Elections one after the other

A `start_election` that runs to its end, with the elections that its calls start inside
of the peers, when every call is delivered and answered.  The functions follow the
source: `askPeers` is its first loop, `announceAll` its second one.

* `startElection_eq_self`: an election of a coordinator that some peer does not pass
  changes nothing, however many elections it starts.
* `startElection_lowest`: all others are at the higher peers of the lowest coordinator,
  and after its election all follow it.
* `startElection_run`: the functions are runs of the steps of the coordinators.
-/

namespace StorageEngine.Coordinator

open Lib

variable {ι : Type} [DecidableEq ι]

/-- The coordinators, and the announcements that were delivered. -/
structure World (ι : Type) where
  state : ι → CoordinatorState := fun _ => {}
  announced : List (ι × LeaderAnnounceRequest) := []

/-- A call of `AnnounceLeader`. -/
def World.announce (C : Coordinators ι) (w : World ι) (j : ι) (req : LeaderAnnounceRequest) :
    World ι where
  state := Function.update w.state j (announceLeader (C.nodeId j) (w.state j) req).2
  announced := (j, req) :: w.announced

/-- The second loop of `start_election`, for the peers that are left. -/
def announceAll (C : Coordinators ι) (i : ι) : List ι → World ι → World ι
  | [], w => w
  | peer :: rest, w =>
    announceAll C i rest
      (w.announce C peer { leaderId := C.nodeId i, generation := (w.state i).generation })

/-- The branch of `start_election` for a candidate without a higher peer. -/
def claim (C : Coordinators ι) (i : ι) (w : World ι) : World ι :=
  announceAll C i (C.peers i)
    { w with state := Function.update w.state i (elected C i (w.state i)) }

/-- The first loop of `start_election`, for the peers that are left: `higher_peer_exists`
at its end.  A peer that starts an election runs it by `nested` before it answers. -/
def askPeers (C : Coordinators ι) (nested : ι → World ι → Option (World ι)) (i : ι) :
    List ι → World ι → Option (Bool × World ι)
  | [], w => some (false, w)
  | peer :: rest, w =>
    let served := requestElection (C.nodeId peer) (w.state peer) (electionRequest C i)
    match if served.2 = true then nested peer w else some w with
    | none => none
    | some w =>
      if higherPeer (some served.1) = true then some (true, w)
      else askPeers C nested i rest w

/-- `start_election`, with fewer than `depth` elections inside of each other.  `none` is
an election that is nested deeper. -/
def startElection (C : Coordinators ι) : ℕ → ι → World ι → Option (World ι)
  | 0, _, _ => none
  | depth + 1, i, w =>
    match askPeers C (startElection C depth) i (C.peers i) w with
    | none => none
    | some (higherPeerExists, w) => some (if higherPeerExists = true then w else claim C i w)

/-- A coordinator that is not the leader calls `start_election`, which runs to its end. -/
def Elects (C : Coordinators ι) (w : World ι) (i : ι) (w' : World ι) : Prop :=
  (w.state i).isLeader = false ∧ ∃ depth, startElection C depth i w = some w'

omit [DecidableEq ι] in
/-- Nobody is the leader and nobody was announced, or there is one leader, and all
coordinators agree on the leader and on the generation. -/
def Agreed (w : World ι) : Prop :=
  ((∀ i, (w.state i).isLeader = false) ∧ w.announced = []) ∨
    (∃! i, (w.state i).isLeader = true) ∧
      ∀ j k, (w.state j).currentLeader = (w.state k).currentLeader ∧
        (w.state j).generation = (w.state k).generation

/-! ## The calls of an election -/

section Calls

variable {ι : Type} {C : Coordinators ι} {nested : ι → World ι → Option (World ι)} {i : ι}
  {w : World ι}

/-- A peer with a higher priority lets the candidate pass, after an election of its own. -/
theorem askPeers_higher {peer : ι} {rest : List ι} (hlt : priority C i < priority C peer) :
    askPeers C nested i (peer :: rest) w = (nested peer w).bind (askPeers C nested i rest) := by
  have hserved : requestElection (C.nodeId peer) (w.state peer) (electionRequest C i) =
      ({ ack := true, currentLeader := (w.state peer).currentLeader }, true) := if_pos hlt
  rw [askPeers]
  simp only [hserved, if_true]
  cases nested peer w <;> rfl

/-- Any other peer makes the candidate give up. -/
theorem askPeers_refused {peer : ι} {rest : List ι} (hlt : ¬priority C i < priority C peer) :
    askPeers C nested i (peer :: rest) w = some (true, w) := by
  have hserved : requestElection (C.nodeId peer) (w.state peer) (electionRequest C i) =
      ({ ack := false, currentLeader := (w.state peer).currentLeader }, false) := if_neg hlt
  rw [askPeers]
  simp only [hserved]
  rfl

/-- The calls of a candidate whose higher peers elect nobody: it gives up if there is
another peer. -/
theorem askPeers_eq {rest : List ι}
    (hnested : ∀ k ∈ rest, priority C i < priority C k → nested k w = some w) :
    askPeers C nested i rest w =
      some (decide (∃ k ∈ rest, ¬priority C i < priority C k), w) := by
  induction rest with
  | nil => simp [askPeers]
  | cons k rest ih =>
    rw [List.forall_mem_cons] at hnested
    by_cases hlt : priority C i < priority C k
    · rw [askPeers_higher hlt, hnested.1 hlt, Option.bind_some, ih hnested.2]
      simp only [List.exists_mem_cons_iff, hlt, not_true_eq_false, false_or]
    · rw [askPeers_refused hlt]
      simp only [List.exists_mem_cons_iff, hlt, not_false_eq_true, true_or, decide_true]

/-- Calls that end do so in the same way when the elections inside may be nested deeper. -/
theorem askPeers_mono {nested' : ι → World ι → Option (World ι)}
    (hnested : ∀ k w w', nested k w = some w' → nested' k w = some w') {rest : List ι}
    {result : Bool × World ι} (h : askPeers C nested i rest w = some result) :
    askPeers C nested' i rest w = some result := by
  induction rest generalizing w with
  | nil => exact h
  | cons k rest ih =>
    by_cases hlt : priority C i < priority C k
    · rw [askPeers_higher hlt] at h ⊢
      obtain ⟨w', hw', hrest⟩ := Option.bind_eq_some_iff.mp h
      rw [hnested k w w' hw', Option.bind_some]
      exact ih hrest
    · rw [askPeers_refused hlt] at h ⊢
      exact h

end Calls

variable {C : Coordinators ι} {i : ι} {w w' : World ι}

theorem startElection_mono {depth : ℕ} (extra : ℕ) (h : startElection C depth i w = some w') :
    startElection C (depth + extra) i w = some w' := by
  induction depth generalizing i w w' with
  | zero => cases h
  | succ depth ih =>
    rw [Nat.add_right_comm]
    rw [startElection] at h ⊢
    cases hcalls : askPeers C (startElection C depth) i (C.peers i) w with
    | none =>
      rw [hcalls] at h
      cases h
    | some result =>
      rw [askPeers_mono (fun _ _ _ => ih) hcalls]
      rwa [hcalls] at h

/-- How deep an election may be nested does not matter once it is deep enough. -/
theorem startElection_unique {w'' : World ι} {depth depth' : ℕ}
    (h : startElection C depth i w = some w') (h' : startElection C depth' i w = some w'') :
    w' = w'' := by
  have hsum := startElection_mono depth' h
  have hsum' := startElection_mono depth h'
  rw [Nat.add_comm, hsum] at hsum'
  exact Option.some.inj hsum'

/-! ## Who is elected -/

/-- The priorities above that of the coordinator: no election is nested deeper. -/
def depthOf (C : Coordinators ι) (i : ι) : ℕ :=
  2 ^ 64 - (priority C i).toNat

omit [DecidableEq ι] in
theorem depthOf_lt {k : ι} (h : priority C i < priority C k) : depthOf C k < depthOf C i := by
  have hhigher := UInt64.lt_iff_toNat_lt.mp h
  have hbound := UInt64.toNat_lt (priority C k)
  unfold depthOf
  omega

omit [DecidableEq ι] in
theorem not_higher_of_higher {k : ι} (h : priority C i < priority C k) :
    ¬priority C k < priority C i := by
  rw [UInt64.lt_iff_toNat_lt] at h ⊢
  omega

section Elected

variable (hpeers : ∀ i j, i ≠ j → j ∈ C.peers i)

include hpeers

/-- An election of a coordinator that some peer does not let pass changes nothing.  Its
higher peers elect nobody, because they do not get past the coordinator. -/
theorem startElection_eq_self {depth : ℕ} (hdepth : depthOf C i < depth)
    (hrefuse : ∃ k ∈ C.peers i, ¬priority C i < priority C k) :
    startElection C depth i w = some w := by
  induction depth generalizing i with
  | zero => omega
  | succ depth ih =>
    have hnested : ∀ k ∈ C.peers i, priority C i < priority C k →
        startElection C depth k w = some w := by
      intro k _ hlt
      have hless := depthOf_lt hlt
      refine ih (by omega) ⟨i, hpeers k i ?_, not_higher_of_higher hlt⟩
      rintro rfl
      exact not_higher_of_higher hlt hlt
    rw [startElection, askPeers_eq hnested, decide_eq_true hrefuse]
    rfl

/-- A coordinator with a lower priority than all its peers is elected. -/
theorem startElection_lowest {depth : ℕ} (hdepth : depthOf C i < depth)
    (hlowest : ∀ k ∈ C.peers i, priority C i < priority C k) :
    startElection C depth i w = some (claim C i w) := by
  cases depth with
  | zero => omega
  | succ depth =>
    have hnested : ∀ k ∈ C.peers i, priority C i < priority C k →
        startElection C depth k w = some w := by
      intro k hk hlt
      have hless := depthOf_lt hlt
      refine startElection_eq_self hpeers (by omega) ⟨i, hpeers k i ?_, not_higher_of_higher hlt⟩
      rintro rfl
      exact not_higher_of_higher hlt hlt
    have hnone : ¬∃ k ∈ C.peers i, ¬priority C i < priority C k := by simpa using hlowest
    rw [startElection, askPeers_eq hnested, decide_eq_false hnone]
    rfl

/-- Every election ends. -/
theorem startElection_total (i : ι) (w : World ι) :
    ∃ w', startElection C (depthOf C i + 1) i w = some w' := by
  by_cases hrefuse : ∃ k ∈ C.peers i, ¬priority C i < priority C k
  · exact ⟨w, startElection_eq_self hpeers (Nat.lt_succ_self _) hrefuse⟩
  · have hlowest : ∀ k ∈ C.peers i, priority C i < priority C k := by simpa using hrefuse
    exact ⟨claim C i w, startElection_lowest hpeers (Nat.lt_succ_self _) hlowest⟩

/-- An election changes nothing, or it elects a coordinator that is below its peers. -/
theorem Elects.cases (h : Elects C w i w') :
    w' = w ∨ (∀ k ∈ C.peers i, priority C i < priority C k) ∧ w' = claim C i w := by
  obtain ⟨-, depth, hstart⟩ := h
  by_cases hrefuse : ∃ k ∈ C.peers i, ¬priority C i < priority C k
  · exact .inl (startElection_unique hstart
      (startElection_eq_self hpeers (Nat.lt_succ_self _) hrefuse))
  · have hlowest : ∀ k ∈ C.peers i, priority C i < priority C k := by simpa using hrefuse
    exact .inr ⟨hlowest, startElection_unique hstart
      (startElection_lowest hpeers (Nat.lt_succ_self _) hlowest)⟩

end Elected

/-! ## What the announcements leave behind -/

/-- The coordinator follows `i` in this generation. -/
structure Follows (C : Coordinators ι) (i : ι) (generation : UInt64) (w : World ι) (j : ι) :
    Prop where
  currentLeader : (w.state j).currentLeader = C.nodeId i
  isLeader : (w.state j).isLeader = decide (C.nodeId i = C.nodeId j)
  generation : (w.state j).generation = generation

theorem follows_announce (w : World ι) (generation : UInt64) (j : ι) :
    Follows C i generation
      (w.announce C j { leaderId := C.nodeId i, generation := generation }) j := by
  constructor <;> simp [World.announce, announceLeader]

theorem World.announce_state_of_ne (w : World ι) (req : LeaderAnnounceRequest) {j k : ι}
    (hne : k ≠ j) : (w.announce C j req).state k = w.state k :=
  Function.update_of_ne hne _ _

/-- The announcements of a coordinator that is not its own peer.  They leave it as it is,
and all its peers follow it. -/
theorem announceAll_follows {rest : List ι} (hself : i ∉ rest) (w : World ι) :
    (announceAll C i rest w).state i = w.state i ∧
      ∀ j, j ∈ rest ∨ Follows C i (w.state i).generation w j →
        Follows C i (w.state i).generation (announceAll C i rest w) j := by
  induction rest generalizing w with
  | nil => exact ⟨rfl, fun j hj => hj.resolve_left List.not_mem_nil⟩
  | cons peer rest ih =>
    rw [List.mem_cons, not_or] at hself
    let req : LeaderAnnounceRequest :=
      { leaderId := C.nodeId i, generation := (w.state i).generation }
    have hkept : (w.announce C peer req).state i = w.state i :=
      w.announce_state_of_ne req hself.1
    obtain ⟨hstate, hfollows⟩ := ih hself.2 (w.announce C peer req)
    rw [hkept] at hstate hfollows
    refine ⟨hstate, fun j hj => hfollows j ?_⟩
    by_cases hpeer : j = peer
    · subst hpeer
      exact .inr (follows_announce w _ j)
    · rw [List.mem_cons, or_iff_right hpeer] at hj
      refine hj.imp_right fun hj => ?_
      have hsame := w.announce_state_of_ne (C := C) req hpeer
      exact ⟨hsame ▸ hj.currentLeader, hsame ▸ hj.isLeader, hsame ▸ hj.generation⟩

/-- After the election of a coordinator that is below all others, all follow it. -/
theorem claim_agreed (hids : Function.Injective C.nodeId) (hpeers : ∀ i j, i ≠ j → j ∈ C.peers i)
    (hlowest : ∀ k ∈ C.peers i, priority C i < priority C k) (w : World ι) :
    Agreed (claim C i w) := by
  have hself : i ∉ C.peers i := fun hi => not_higher_of_higher (hlowest i hi) (hlowest i hi)
  obtain ⟨hstate, hfollows⟩ := announceAll_follows (C := C) hself
    { w with state := Function.update w.state i (elected C i (w.state i)) }
  simp only [Function.update_self] at hstate hfollows
  have hall : ∀ j, Follows C i (elected C i (w.state i)).generation (claim C i w) j := by
    intro j
    by_cases hij : i = j
    · subst hij
      have hleader : (claim C i w).state i = elected C i (w.state i) := hstate
      constructor <;> simp [hleader, elected]
    · exact hfollows j (.inl (hpeers i j hij))
  right
  constructor
  · refine ⟨i, ?_, fun j hj => ?_⟩
    · show ((claim C i w).state i).isLeader = true
      rw [(hall i).isLeader, decide_eq_true rfl]
    · have hleader : ((claim C i w).state j).isLeader = true := hj
      rw [(hall j).isLeader, decide_eq_true_eq] at hleader
      exact (hids hleader).symm
  · intro j k
    exact ⟨(hall j).currentLeader.trans (hall k).currentLeader.symm,
      (hall j).generation.trans (hall k).generation.symm⟩

/-- After every completed election of a sequence, either nobody is the leader and nobody
was announced, or there is one leader and all coordinators agree on it and on the
generation. -/
theorem elections_agree (hpriority : Function.Injective (priority C))
    (hpeers : ∀ i j, i ≠ j → j ∈ C.peers i) {trace : List (Transition (World ι) ι)}
    (hrun : Run (Elects C) {} trace w) : Agreed w := by
  have hids : Function.Injective C.nodeId := fun i j hij =>
    hpriority (congrArg nodePriority hij)
  refine hrun.invariant (fun w i w' helects hagreed => ?_) (.inl ⟨fun _ => rfl, rfl⟩)
  rcases helects.cases hpeers with rfl | ⟨hlowest, rfl⟩
  · exact hagreed
  · exact claim_agreed hids hpeers hlowest w

/-- The higher one of two coordinators calls for an election in vain, then the lower one
is elected. -/
theorem elections_agree_two :
    ∃ trace w, Run (Elects twoCoordinators) {} trace w ∧
      trace.map Transition.label = [true, false] ∧ Agreed w := by
  have hpeers : ∀ i j, i ≠ j → j ∈ twoCoordinators.peers i := by decide
  have hvain : Elects twoCoordinators {} true {} :=
    ⟨rfl, _, startElection_eq_self hpeers (Nat.lt_succ_self _) (by decide)⟩
  have helected : Elects twoCoordinators {} false (claim twoCoordinators false {}) :=
    ⟨rfl, _, startElection_lowest hpeers (Nat.lt_succ_self _) (by decide)⟩
  have hrun := Run.head hvain (.single helected)
  exact ⟨_, _, hrun, rfl, elections_agree (by decide) hpeers hrun⟩

/-! ## The functions as runs of the steps -/

/-- A thread can become `thread`, and the coordinators `state`, when no call fails.  Other
threads begin and return meanwhile, and leave no frames behind. -/
def Reaches (C : Coordinators ι) (c : Config ι) (before : List (List (Frame ι)))
    (thread : List (Frame ι)) (after : List (List (Frame ι))) (state : ι → CoordinatorState) :
    Prop :=
  ∃ trace c' n, Run (Step C fun _ _ => False) c trace c' ∧
    c'.threads = (List.replicate n [] ++ before) ++ thread :: after ∧ c'.state = state

section Reaches

variable {c : Config ι} {before after : List (List (Frame ι))}
  {thread below : List (Frame ι)} {state : ι → CoordinatorState}

omit [DecidableEq ι] in
/-- Threads without frames hold no mutex. -/
theorem Unlocked.blank {threads : List (List (Frame ι))} (h : Unlocked threads i) (n : ℕ) :
    Unlocked (List.replicate n [] ++ threads) i := by
  intro t ht f hf
  rcases List.mem_append.mp ht with ht | ht
  · rw [List.eq_of_mem_replicate ht] at hf
    cases hf
  · exact h t ht f hf

theorem Reaches.refl (hthread : c.threads = before ++ thread :: after) :
    Reaches C c before thread after c.state :=
  ⟨[], c, 0, .refl c, hthread, rfl⟩

theorem Reaches.trans {thread' : List (Frame ι)} {state' : ι → CoordinatorState}
    (h : Reaches C c before thread after state)
    (hnext : ∀ c' n, c'.threads = (List.replicate n [] ++ before) ++ thread :: after →
      c'.state = state → Reaches C c' (List.replicate n [] ++ before) thread' after state') :
    Reaches C c before thread' after state' := by
  obtain ⟨first, c₁, n, hfirst, hthread₁, hstate₁⟩ := h
  obtain ⟨last, c₂, m, hlast, hthread₂, hstate₂⟩ := hnext c₁ n hthread₁ hstate₁
  refine ⟨_, c₂, m + n, hfirst.trans hlast, ?_, hstate₂⟩
  rw [hthread₂, List.replicate_add]
  simp only [List.append_assoc]

theorem Reaches.head {e : Event ι} {c₁ : Config ι} (hstep : Step C (fun _ _ => False) c e c₁)
    (h : Reaches C c₁ before thread after state) : Reaches C c before thread after state := by
  obtain ⟨trace, c', n, hrun, hthread, hstate⟩ := h
  exact ⟨_, c', n, .head hstep hrun, hthread, hstate⟩

/-- One announcement, from the step that sends it to the return of the handler. -/
theorem announce_reaches {peer : ι} {rest : List ι}
    (hthread : c.threads = before ++ (⟨i, .announcing (peer :: rest)⟩ :: below) :: after)
    (hmutex : ∀ j, Unlocked (before ++ below :: after) j) (hstate : c.state = w.state) :
    Reaches C c before (⟨i, .announcing rest⟩ :: below) after
      (w.announce C peer
        { leaderId := C.nodeId i, generation := (w.state i).generation }).state := by
  obtain ⟨c₁, hsend, hthread₁, hstate₁, -, hmessages₁⟩ :=
    @step_thread _ _ C (fun _ _ => False) _ _ _ _ _ _ _ _ _ hthread nofun rfl
  rw [Function.update_eq_self] at hstate₁
  have hmessage : (peer, { leaderId := C.nodeId i, generation := (c.state i).generation }) ∈
      c₁.announcements := by
    rw [hmessages₁]
    exact List.mem_cons_self
  obtain ⟨c₂, handler, c₃, hannounce, hhandler, -, hstate₃, hthread₃⟩ :=
    @run_follows _ _ C (fun _ _ => False) _ _ _ hmessage (hthread₁ ▸ (hmutex peer).push rfl)
  refine ⟨_, c₃, 1, .head hsend (.head hannounce hhandler), ?_, ?_⟩
  · rw [hthread₃, hthread₁]
    rfl
  · rw [hstate₃, hstate₁, hstate, World.announce]

/-- The second loop of `start_election`, and its return. -/
theorem announceAll_reaches {rest : List ι}
    (hthread : c.threads = before ++ (⟨i, .announcing rest⟩ :: below) :: after)
    (hmutex : ∀ j, Unlocked (before ++ below :: after) j) (hstate : c.state = w.state) :
    Reaches C c before below after (announceAll C i rest w).state := by
  induction rest generalizing c before w with
  | nil =>
    obtain ⟨e, hreturn⟩ := @step_top _ _ C (fun _ _ => False) _ _ _ _ _ _ none hthread nofun rfl
    rw [announceAll, ← hstate]
    exact .head hreturn (.refl rfl)
  | cons peer rest ih =>
    refine (announce_reaches hthread hmutex hstate).trans fun c' n hthread' hstate' => ?_
    exact ih hthread' (fun j => List.append_assoc _ before _ ▸ (hmutex j).blank n) hstate'

/-- The elections that a coordinator starts inside of others are runs. -/
def Simulates (C : Coordinators ι) (nested : ι → World ι → Option (World ι)) : Prop :=
  ∀ (k : ι) (w w' : World ι), nested k w = some w' → ∀ (c : Config ι) before below after,
    c.threads = before ++ (⟨k, .asking (C.peers k)⟩ :: below) :: after →
      (∀ j, Unlocked (before ++ below :: after) j) → c.state = w.state →
        Reaches C c before below after w'.state

/-- The first loop of `start_election`, and its return for a candidate that gives up. -/
theorem askPeers_reaches {nested : ι → World ι → Option (World ι)} (hnested : Simulates C nested)
    {rest : List ι} {higherPeerExists : Bool}
    (hcalls : askPeers C nested i rest w = some (higherPeerExists, w'))
    (hthread : c.threads = before ++ (⟨i, .asking rest⟩ :: below) :: after)
    (hmutex : ∀ j, Unlocked (before ++ below :: after) j) (hstate : c.state = w.state) :
    Reaches C c before
      (if higherPeerExists = true then below else ⟨i, .asking []⟩ :: below) after w'.state := by
  induction rest generalizing c before w with
  | nil =>
    cases hcalls
    rw [← hstate]
    exact .refl hthread
  | cons k rest ih =>
    by_cases hlt : priority C i < priority C k
    · rw [askPeers_higher hlt] at hcalls
      obtain ⟨w₁, hw₁, hrest⟩ := Option.bind_eq_some_iff.mp hcalls
      let resp : ElectionResponse := { ack := true, currentLeader := (c.state k).currentLeader }
      have hserve : requestElection (C.nodeId k) (c.state k) (electionRequest C i) =
          (resp, true) := if_pos hlt
      let c₁ : Config ι :=
        { c with
          threads :=
            before ++ (⟨k, .asking (C.peers k)⟩ :: ⟨i, .awaiting k rest resp⟩ :: below) :: after }
      have hcall : Step C (fun _ _ => False) c .other c₁ := .call hthread hserve
      have hinside := hnested k w w₁ hw₁ c₁ before (⟨i, .awaiting k rest resp⟩ :: below) after rfl
        (fun j => (hmutex j).push rfl) hstate
      refine .head hcall (hinside.trans fun c' n hthread' hstate' => ?_)
      obtain ⟨e, hresume⟩ := @step_top _ _ C (fun _ _ => False) _ _ _ _ _ _
        (some (.asking rest)) hthread' nofun rfl
      exact .head hresume (ih hrest rfl
        (fun j => List.append_assoc _ before _ ▸ (hmutex j).blank n) hstate')
    · rw [askPeers_refused hlt] at hcalls
      cases hcalls
      let resp : ElectionResponse := { ack := false, currentLeader := (c.state k).currentLeader }
      have hserve : requestElection (C.nodeId k) (c.state k) (electionRequest C i) =
          (resp, false) := if_neg hlt
      have hcall : Step C (fun _ _ => False) c .other _ := .call hthread hserve
      obtain ⟨e, hreturn⟩ := @step_top _ _ C (fun _ _ => False)
        { c with threads := before ++ (⟨i, .awaiting k rest resp⟩ :: below) :: after } before
        after below i (.awaiting k rest resp) none rfl nofun rfl
      rw [← hstate]
      exact .head hcall (.head hreturn (.refl rfl))

/-- The branch of `start_election` for a candidate without a higher peer. -/
theorem claim_reaches (hthread : c.threads = before ++ (⟨i, .asking []⟩ :: below) :: after)
    (hmutex : ∀ j, Unlocked (before ++ below :: after) j) (hstate : c.state = w.state) :
    Reaches C c before below after (claim C i w).state := by
  obtain ⟨trace, c₁, hrun, hthread₁, hstate₁, -, -⟩ :=
    @run_claims_below _ _ C (fun _ _ => False) _ _ _ _ _ hthread (hmutex i)
  let w₁ : World ι := { w with state := Function.update w.state i (elected C i (w.state i)) }
  rw [hstate] at hstate₁
  have hclaims : Reaches C c before (⟨i, .announcing (C.peers i)⟩ :: below) after w₁.state :=
    ⟨trace, c₁, 0, hrun, hthread₁, hstate₁⟩
  refine hclaims.trans fun c' n hthread' hstate' => ?_
  exact announceAll_reaches hthread'
    (fun j => List.append_assoc _ before _ ▸ (hmutex j).blank n) hstate'

end Reaches

/-- An election that ends is a run of its thread from its first step to its return, in
which no call fails and no other election takes a step. -/
theorem startElection_reaches (depth : ℕ) : Simulates C (startElection C depth) := by
  induction depth with
  | zero => exact fun k w w' h => nomatch h
  | succ depth ih =>
    intro k w w' h c before below after hthread hmutex hstate
    rw [startElection] at h
    cases hcalls : askPeers C (startElection C depth) k (C.peers k) w with
    | none =>
      rw [hcalls] at h
      cases h
    | some result =>
      obtain ⟨higherPeerExists, w₁⟩ := result
      rw [hcalls] at h
      have hasked := askPeers_reaches ih hcalls hthread hmutex hstate
      cases higherPeerExists with
      | true =>
        cases h
        exact hasked
      | false =>
        cases h
        refine hasked.trans fun c' n hthread' hstate' => ?_
        exact claim_reaches hthread'
          (fun j => List.append_assoc _ before _ ▸ (hmutex j).blank n) hstate'

end StorageEngine.Coordinator
