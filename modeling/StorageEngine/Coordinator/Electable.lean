import StorageEngine.Coordinator.Moves

/-!
# Who can be elected

`start_election` gives up when a peer answers without `ack`, and `RequestElection`
answers with `ack` when the peer has the higher priority.  So a coordinator that is
elected has been passed by all its peers: by those with a higher priority, and by
those that it could not reach.  This is an invariant of every run.
-/

namespace StorageEngine.Coordinator

open Lib

variable {ι : Type} {C : Coordinators ι} {lossy : ι → ι → Prop}

/-- The priority of a coordinator. -/
def priority (C : Coordinators ι) (i : ι) : UInt64 :=
  nodePriority (C.nodeId i)

/-- The peer can let `i` pass: it has a higher priority, or the call to it can fail. -/
def Passes (C : Coordinators ι) (lossy : ι → ι → Prop) (i j : ι) : Prop :=
  lossy i j ∨ priority C i < priority C j

/-- All peers can let `i` pass. -/
def Electable (C : Coordinators ι) (lossy : ι → ι → Prop) (i : ι) : Prop :=
  ∀ j ∈ C.peers i, Passes C lossy i j

/-- The announcement is that of a coordinator that was elected. -/
def Announced (C : Coordinators ι) (lossy : ι → ι → Prop) (req : LeaderAnnounceRequest) : Prop :=
  ∃ k, req.leaderId = C.nodeId k ∧ Electable C lossy k

/-- What holds of a thread: the peers that an election has gone through have let it
pass. -/
def Frame.Passed (C : Coordinators ι) (lossy : ι → ι → Prop) (f : Frame ι) : Prop :=
  match f.stage with
  | .asking rest => ∀ j ∈ C.peers f.self, j ∈ rest ∨ Passes C lossy f.self j
  | .awaiting peer rest resp =>
    (∀ j ∈ C.peers f.self, j = peer ∨ j ∈ rest ∨ Passes C lossy f.self j) ∧
      (resp.ack = true → Passes C lossy f.self peer)
  | .claiming | .counting | .naming | .loading | .recording _ | .announcing _ =>
    Electable C lossy f.self
  | .following req | .adopting req | .confirming req => Announced C lossy req

structure ElectionInv (C : Coordinators ι) (lossy : ι → ι → Prop) (c : Config ι) : Prop where
  leaders : ∀ i, (c.state i).isLeader = true → Electable C lossy i
  frames : ∀ f ∈ c.frames, f.Passed C lossy
  announcements : ∀ message ∈ c.announcements, Announced C lossy message.2

theorem electionInv_initial : ElectionInv C lossy initial where
  leaders _ h := by cases h
  frames _ h := by cases h
  announcements _ h := by cases h

/-- A new election has not gone through any peer. -/
theorem passed_asking_peers (i : ι) : Frame.Passed C lossy ⟨i, .asking (C.peers i)⟩ :=
  fun _ hj => .inl hj

theorem passed_started {j : ι} {starts : Bool} :
    ∀ f ∈ started C j starts, f.Passed C lossy := by
  intro f hf
  rw [started] at hf
  split at hf
  · rw [List.mem_singleton.mp hf]
    exact passed_asking_peers j
  · cases hf

/-- A step of a thread. -/
theorem advance_passed (hids : Function.Injective C.nodeId) {i : ι} {s : CoordinatorState}
    {stage : Stage ι} {e : Effect ι}
    (hadvance : advance C i s stage = some e) (hpassed : Frame.Passed C lossy ⟨i, stage⟩)
    (hleader : s.isLeader = true → Electable C lossy i) :
    (e.state.isLeader = true → Electable C lossy i) ∧
      (∀ f ∈ e.next.toList.map (⟨i, ·⟩ : Stage ι → Frame ι), f.Passed C lossy) ∧
      ∀ message ∈ e.sent.toList, Announced C lossy message.2 := by
  cases advance_cases hadvance with
  | asked =>
    refine ⟨hleader, ?_, by simp⟩
    simpa [Frame.Passed, Electable] using hpassed
  | refused | announced | confirming => exact ⟨hleader, by simp, by simp⟩
  | acked hack =>
    refine ⟨hleader, ?_, by simp⟩
    obtain ⟨hrest, hpeer⟩ := hpassed
    simp only [Option.toList_some, List.map_cons, List.map_nil, List.mem_singleton, forall_eq]
    intro j hj
    rcases hrest j hj with rfl | hrest | hpasses
    · exact .inr (hpeer hack)
    · exact .inl hrest
    · exact .inr hpasses
  | claiming => exact ⟨fun _ => hpassed, by simpa [Frame.Passed] using hpassed, by simp⟩
  | counting | naming | loading | recording | adopting =>
    exact ⟨hleader, by simpa [Frame.Passed] using hpassed, by simp⟩
  | announcing =>
    refine ⟨hleader, by simpa [Frame.Passed] using hpassed, ?_⟩
    simp only [Option.toList_some, List.mem_singleton, forall_eq]
    exact ⟨i, rfl, hpassed⟩
  | following =>
    refine ⟨fun hi => ?_, by simpa [Frame.Passed] using hpassed, by simp⟩
    obtain ⟨k, hid, helectable⟩ := hpassed
    have hsame : C.nodeId k = C.nodeId i := hid.symm.trans (of_decide_eq_true hi)
    rw [← hids hsame]
    exact helectable

/-- A handler acknowledges the requests of lower candidates. -/
theorem requestElection_ack {nodeId : Str} {s : CoordinatorState} {req : ElectionRequest} :
    (requestElection nodeId s req).1.ack = true ↔ req.priority < nodePriority nodeId := by
  rw [requestElection]
  by_cases hlt : req.priority < nodePriority nodeId
  · simp [hlt]
  · simp [hlt]

variable [DecidableEq ι]

/-- A move of frames that have passed their peers. -/
theorem Move.passed (hids : Function.Injective C.nodeId) {c : Config ι} {e : Event ι}
    {old new : List (Frame ι)} {state : ι → CoordinatorState}
    {announcements : List (ι × LeaderAnnounceRequest)}
    (hmove : Move C lossy c e old new state announcements) (h : ElectionInv C lossy c)
    (hold : ∀ f ∈ old, f.Passed C lossy) :
    (∀ i, (state i).isLeader = true → Electable C lossy i) ∧
      (∀ f ∈ new, f.Passed C lossy) ∧
      ∀ message ∈ announcements, Announced C lossy message.2 := by
  have hupdate : ∀ {i s}, (s.isLeader = true → Electable C lossy i) →
      ∀ j, (Function.update c.state i s j).isLeader = true → Electable C lossy j := fun hi =>
    (Function.forall_update_iff c.state fun j s => s.isLeader = true → Electable C lossy j).mpr
      ⟨hi, fun j _ => h.leaders j⟩
  cases hmove with
  | begins i starts => exact ⟨h.leaders, passed_started, h.announcements⟩
  | @advance i stage effect hmutex heffect =>
    obtain ⟨hleader, hnext, hsent⟩ :=
      advance_passed hids heffect (hold _ (List.mem_singleton_self _)) (h.leaders i)
    refine ⟨hupdate hleader, hnext, fun message hmessage => ?_⟩
    rcases List.mem_append.mp hmessage with hmessage | hmessage
    · exact hsent message hmessage
    · exact h.announcements message hmessage
  | @call i peer rest resp starts hserve =>
    refine ⟨h.leaders, fun f hf => ?_, h.announcements⟩
    rcases List.mem_append.mp hf with hf | hf
    · exact passed_started f hf
    · rw [List.mem_singleton.mp hf]
      refine ⟨fun j hj => ?_, fun hack => .inr ?_⟩
      · have hpassed := hold _ (List.mem_singleton_self _) j hj
        rwa [List.mem_cons, or_assoc] at hpassed
      · have hresp := congrArg (fun r => r.1.ack) hserve
        exact requestElection_ack.mp (hresp.trans hack)
  | @lose i peer rest hlossy =>
    refine ⟨h.leaders, fun f hf => ?_, h.announcements⟩
    rw [List.mem_singleton.mp hf]
    intro j hj
    rcases hold _ (List.mem_singleton_self _) j hj with hrest | hpasses
    · rcases List.mem_cons.mp hrest with rfl | hrest
      · exact .inr (.inl hlossy)
      · exact .inl hrest
    · exact .inr hpasses
  | @giveUp i peer rest resp hlossy =>
    refine ⟨h.leaders, fun f hf => ?_, h.announcements⟩
    rw [List.mem_singleton.mp hf]
    intro j hj
    have hpassed := hold _ (List.mem_singleton_self _)
    rcases hpassed.1 j hj with rfl | hrest | hpasses
    · exact .inr (.inl hlossy)
    · exact .inl hrest
    · exact .inr hpasses
  | @announce j req hmessage hmutex =>
    refine ⟨hupdate (h.leaders j), fun f hf => ?_, h.announcements⟩
    rw [List.mem_singleton.mp hf]
    exact h.announcements _ hmessage
  | serve i store hgeneration => exact ⟨hupdate (h.leaders i), nofun, h.announcements⟩

theorem ElectionInv.step (hids : Function.Injective C.nodeId) {c c' : Config ι} {e : Event ι}
    (hstep : Step C lossy c e c') (h : ElectionInv C lossy c) : ElectionInv C lossy c' := by
  obtain ⟨old, new, rest, hold, hnew, hmove⟩ := hstep.move
  obtain ⟨hleaders, hframes, hannouncements⟩ := hmove.passed hids h fun f hf =>
    h.frames f (hold.mem_iff.mpr (List.mem_append_left _ hf))
  refine ⟨hleaders, fun f hf => ?_, hannouncements⟩
  rcases List.mem_append.mp (hnew.mem_iff.mp hf) with hf | hf
  · exact hframes f hf
  · exact h.frames f (hold.mem_iff.mpr (List.mem_append_right _ hf))

/-- In every run a leader is electable. -/
theorem electable_of_leader (hids : Function.Injective C.nodeId) {c : Config ι}
    {trace : List (Transition (Config ι) (Event ι))}
    (hrun : Run (Step C lossy) initial trace c) {i : ι} (hleader : (c.state i).isLeader = true) :
    Electable C lossy i :=
  (hrun.invariant (fun _ _ _ hstep h => h.step hids hstep) electionInv_initial).leaders i hleader

end StorageEngine.Coordinator
