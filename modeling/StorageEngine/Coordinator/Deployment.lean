import StorageEngine.Coordinator.Generation

/-!
# The metadata services that are started

`src/metadata/metadata_node_main.cpp` gives the id `coordinator-1` to every coordinator, whatever
its peers are.  So no peer has a higher priority, and everybody takes an announcement of a leader
for its own election.

* `Frame.Isolated`: an election goes on only past peers that it does not reach.
* `deployed_leaders`: there is no leader, or all that have heard of one are leaders for good.
-/

namespace StorageEngine

structure TriggerRecoveryRequest where
  failedNodeId : Str := []
  deriving DecidableEq, Repr

structure TriggerRecoveryResponse where
  success : Bool := false
  message : Str := []
  chunksRecovered : UInt32 := 0
  deriving DecidableEq, Repr

/-- `coord_id` -/
def coordId : Str := str "coordinator-1"

/-- The coordinators that `main` starts, with the peers that it is called with. -/
def Coordinators.deployed {ι : Type} (peers : ι → List ι) : Coordinators ι where
  nodeId _ := coordId
  peers := peers

namespace Coordinator

open Lib

def triggerRecovery (s : CoordinatorState) (req : TriggerRecoveryRequest) :
    TriggerRecoveryResponse × CoordinatorState :=
  if s.isLeader = false then ({ success := false, message := str "Not leader" }, s)
  else
    ({ success := true, message := str "Recovery triggered", chunksRecovered := 0 },
      { s with store := (s.store.markNodeOffline req.failedNodeId).2 })

/-- The coordinator has never heard of a leader. -/
structure Unelected (s : CoordinatorState) : Prop where
  isLeader : s.isLeader = false
  currentLeader : s.currentLeader = []
  generation : s.generation = 0
  store : s.store.generation = 0

variable {ι : Type} {peers : ι → List ι} {lossy : ι → ι → Prop}

/-- Some coordinator may fail to reach each of its peers. -/
def CutOff (peers : ι → List ι) (lossy : ι → ι → Prop) : Prop :=
  ∃ k, ∀ j ∈ peers k, lossy k j

/-- What a thread has found out: an election has not reached the peers that it is past, and a
leader has the one id that there is. -/
def Frame.Isolated (peers : ι → List ι) (lossy : ι → ι → Prop) (f : Frame ι) : Prop :=
  match f.stage with
  | .asking rest => ∀ j ∈ peers f.self, j ∈ rest ∨ lossy f.self j
  | .awaiting peer rest resp =>
    resp.ack = false ∧ ∀ j ∈ peers f.self, j = peer ∨ j ∈ rest ∨ lossy f.self j
  | .claiming | .counting | .naming | .loading | .recording _ | .announcing _ =>
    ∀ j ∈ peers f.self, lossy f.self j
  | .following req | .adopting req | .confirming req =>
    req.leaderId = coordId ∧ CutOff peers lossy

structure DeployedInv (peers : ι → List ι) (lossy : ι → ι → Prop) (c : Config ι) : Prop where
  frames : ∀ f ∈ c.frames, f.Isolated peers lossy
  announcements : ∀ message ∈ c.announcements,
    message.2.leaderId = coordId ∧ CutOff peers lossy
  unelected : ¬CutOff peers lossy → ∀ i, Unelected (c.state i)

theorem deployedInv_initial : DeployedInv peers lossy initial where
  frames _ h := by cases h
  announcements _ h := by cases h
  unelected _ _ := ⟨rfl, rfl, rfl, rfl⟩

/-- All candidates have the priority of the one that they ask. -/
theorem requestElection_deployed (s : CoordinatorState) (i j : ι) :
    requestElection ((Coordinators.deployed peers).nodeId j) s
        (electionRequest (Coordinators.deployed peers) i) =
      ({ ack := false, currentLeader := s.currentLeader }, false) := by
  simp [requestElection, electionRequest, Coordinators.deployed]

/-! ## One step -/

/-- A step of a thread.  Only a handler writes `is_leader_` from an announcement, which names the
id of its own coordinator. -/
theorem advance_isolated {i : ι} {s : CoordinatorState} {stage : Stage ι} {e : Effect ι}
    (hadvance : advance (Coordinators.deployed peers) i s stage = some e)
    (hisolated : Frame.Isolated peers lossy ⟨i, stage⟩) :
    (∀ f ∈ e.next.toList.map (⟨i, ·⟩ : Stage ι → Frame ι), f.Isolated peers lossy) ∧
      (∀ message ∈ e.sent.toList, message.2.leaderId = coordId ∧ CutOff peers lossy) ∧
      (¬CutOff peers lossy → Unelected s → Unelected e.state) ∧
      (s.isLeader = true → e.state.isLeader = true) ∧
      ∀ req, stage = .following req → e.state.isLeader = true := by
  cases advance_cases hadvance with
  | asked => exact ⟨by simpa [Frame.Isolated] using hisolated, by simp, fun _ h => h, id, by simp⟩
  | refused | announced => exact ⟨by simp, by simp, fun _ h => h, id, by simp⟩
  | acked hack =>
    have hnack := hisolated.1
    rw [hack] at hnack
    cases hnack
  | claiming =>
    exact ⟨by simpa [Frame.Isolated] using hisolated, by simp,
      fun hreach _ => absurd ⟨i, hisolated⟩ hreach, fun _ => rfl, by simp⟩
  | counting | naming | recording =>
    exact ⟨by simpa [Frame.Isolated] using hisolated, by simp,
      fun hreach _ => absurd ⟨i, hisolated⟩ hreach, id, by simp⟩
  | loading => exact ⟨by simpa [Frame.Isolated] using hisolated, by simp, fun _ h => h, id, by simp⟩
  | announcing =>
    refine ⟨by simpa [Frame.Isolated] using hisolated, ?_, fun _ h => h, id, by simp⟩
    simp only [Option.toList_some, List.mem_singleton, forall_eq]
    exact ⟨rfl, i, hisolated⟩
  | following =>
    have hself := decide_eq_true hisolated.1
    exact ⟨by simpa [Frame.Isolated] using hisolated, by simp,
      fun hreach _ => absurd hisolated.2 hreach, fun _ => hself, fun _ _ => hself⟩
  | adopting =>
    exact ⟨by simpa [Frame.Isolated] using hisolated, by simp,
      fun hreach _ => absurd hisolated.2 hreach, id, by simp⟩
  | confirming =>
    exact ⟨by simp, by simp, fun hreach _ => absurd hisolated.2 hreach, id, by simp⟩

variable [DecidableEq ι]

/-- A move of isolated frames. -/
theorem Move.isolated {c : Config ι} {e : Event ι} {old new : List (Frame ι)}
    {state : ι → CoordinatorState} {announcements : List (ι × LeaderAnnounceRequest)}
    (hmove : Move (Coordinators.deployed peers) lossy c e old new state announcements)
    (h : DeployedInv peers lossy c) (hold : ∀ f ∈ old, f.Isolated peers lossy) :
    (∀ f ∈ new, f.Isolated peers lossy) ∧
      (∀ message ∈ announcements, message.2.leaderId = coordId ∧ CutOff peers lossy) ∧
      (¬CutOff peers lossy → ∀ i, Unelected (state i)) ∧
      ∀ i, (c.state i).isLeader = true ∨ (∃ req, ⟨i, .following req⟩ ∈ old) →
        (state i).isLeader = true := by
  have hstarted : ∀ j starts, ∀ f ∈ started (Coordinators.deployed peers) j starts,
      f.Isolated peers lossy := by
    intro j starts f hf
    rw [started] at hf
    split at hf
    · rw [List.mem_singleton.mp hf]
      exact fun k hk => .inl hk
    · cases hf
  cases hmove with
  | begins i starts =>
    exact ⟨hstarted i starts, h.announcements, h.unelected, fun i hi => by simpa using hi⟩
  | @advance i stage effect hmutex heffect =>
    obtain ⟨hnext, hsent, hunelected, hstays, hfollows⟩ :=
      advance_isolated heffect (hold _ (List.mem_singleton_self _))
    refine ⟨hnext, fun message hmessage => ?_, fun hreach => ?_, fun j hj => ?_⟩
    · rcases List.mem_append.mp hmessage with hmessage | hmessage
      · exact hsent message hmessage
      · exact h.announcements message hmessage
    · exact (Function.forall_update_iff c.state fun _ s => Unelected s).mpr
        ⟨hunelected hreach (h.unelected hreach i), fun j _ => h.unelected hreach j⟩
    · by_cases hji : j = i
      · subst hji
        rw [Function.update_self]
        rcases hj with hleader | ⟨req, hreq⟩
        · exact hstays hleader
        · cases List.mem_singleton.mp hreq
          exact hfollows req rfl
      · rw [Function.update_of_ne hji]
        rcases hj with hleader | ⟨req, hreq⟩
        · exact hleader
        · cases List.mem_singleton.mp hreq
          exact absurd rfl hji
  | @call i peer rest resp starts hserve =>
    rw [requestElection_deployed] at hserve
    cases hserve
    refine ⟨fun f hf => ?_, h.announcements, h.unelected, fun i hi => by simpa using hi⟩
    simp only [started, Bool.false_eq_true, if_false, List.nil_append, List.mem_singleton] at hf
    subst hf
    refine ⟨rfl, fun j hj => ?_⟩
    have hasked := hold _ (List.mem_singleton_self _) j hj
    rwa [List.mem_cons, or_assoc] at hasked
  | @lose i peer rest hlossy =>
    refine ⟨fun f hf => ?_, h.announcements, h.unelected, fun i hi => by simpa using hi⟩
    rw [List.mem_singleton.mp hf]
    intro j hj
    rcases hold _ (List.mem_singleton_self _) j hj with hrest | hlost
    · rcases List.mem_cons.mp hrest with rfl | hrest
      · exact .inr hlossy
      · exact .inl hrest
    · exact .inr hlost
  | @giveUp i peer rest resp hlossy =>
    refine ⟨fun f hf => ?_, h.announcements, h.unelected, fun i hi => by simpa using hi⟩
    rw [List.mem_singleton.mp hf]
    intro j hj
    rcases (hold _ (List.mem_singleton_self _)).2 j hj with rfl | hrest | hlost
    · exact .inr hlossy
    · exact .inl hrest
    · exact .inr hlost
  | @announce j req hmessage hmutex =>
    have hleader := h.announcements _ hmessage
    refine ⟨fun f hf => ?_, h.announcements, fun hreach => absurd hleader.2 hreach, fun i hi => ?_⟩
    · rw [List.mem_singleton.mp hf]
      exact hleader
    · have hleads : (c.state i).isLeader = true := by simpa using hi
      by_cases hij : i = j
      · subst hij
        rw [Function.update_self]
        exact hleads
      · rw [Function.update_of_ne hij]
        exact hleads
  | serve j store hgeneration =>
    refine ⟨by simp, h.announcements, fun hreach => ?_, fun i hi => ?_⟩
    · refine (Function.forall_update_iff c.state fun _ s => Unelected s).mpr
        ⟨?_, fun i _ => h.unelected hreach i⟩
      have hbefore := h.unelected hreach j
      exact ⟨hbefore.isLeader, hbefore.currentLeader, hbefore.generation,
        hgeneration.trans hbefore.store⟩
    · have hleads : (c.state i).isLeader = true := by simpa using hi
      by_cases hij : i = j
      · subst hij
        rw [Function.update_self]
        exact hleads
      · rw [Function.update_of_ne hij]
        exact hleads

/-- The coordinator is a leader, or it is going to be: it has taken over an announcement. -/
def Hears (c : Config ι) (i : ι) : Prop :=
  (c.state i).isLeader = true ∨ ∃ req, ⟨i, .following req⟩ ∈ c.frames

theorem DeployedInv.step {c c' : Config ι} {e : Event ι}
    (hstep : Step (Coordinators.deployed peers) lossy c e c') (h : DeployedInv peers lossy c) :
    DeployedInv peers lossy c' ∧
      (∀ i, (c.state i).isLeader = true → (c'.state i).isLeader = true) ∧
      ∀ i, Hears c i → Hears c' i := by
  obtain ⟨old, new, rest, hold, hnew, hmove⟩ := hstep.move
  obtain ⟨hframes, hannouncements, hunelected, hleads⟩ := hmove.isolated h fun f hf =>
    h.frames f (hold.mem_iff.mpr (List.mem_append_left _ hf))
  refine ⟨⟨fun f hf => ?_, hannouncements, hunelected⟩, fun i hi => hleads i (.inl hi),
    fun i hi => ?_⟩
  · rcases List.mem_append.mp (hnew.mem_iff.mp hf) with hf | hf
    · exact hframes f hf
    · exact h.frames f (hold.mem_iff.mpr (List.mem_append_right _ hf))
  · rcases hi with hleader | ⟨req, hreq⟩
    · exact .inl (hleads i (.inl hleader))
    · rcases List.mem_append.mp (hold.mem_iff.mp hreq) with hreq | hreq
      · exact .inl (hleads i (.inr ⟨req, hreq⟩))
      · exact .inr ⟨req, hnew.mem_iff.mpr (List.mem_append_right _ hreq)⟩

/-- A handler that has taken over an announcement goes on to `is_leader_`. -/
theorem hears_of_announced {c c' : Config ι} {j : ι} {req : LeaderAnnounceRequest}
    (hstep : Step (Coordinators.deployed peers) lossy c (.announced j req) c') : Hears c' j := by
  generalize hevent : Event.announced j req = e at hstep
  cases hstep with
  | announce hmessage hmutex =>
    cases hevent
    exact .inr ⟨req, by simp [Config.frames]⟩
  | advance hthread hmutex heffect => exact absurd hevent.symm (eventOf_ne_announced j req)
  | start | call | lose | serveLate | giveUp | serve => cases hevent

/-! ## Runs -/

/-- What is kept from one state of a run to a later one. -/
theorem DeployedInv.run {c c' : Config ι} {run : List (Transition (Config ι) (Event ι))}
    (hrun : Run (Step (Coordinators.deployed peers) lossy) c run c')
    (h : DeployedInv peers lossy c) :
    DeployedInv peers lossy c' ∧
      (∀ i, (c.state i).isLeader = true → (c'.state i).isLeader = true) ∧
      ∀ i, Hears c i → Hears c' i := by
  induction hrun with
  | refl c => exact ⟨h, fun _ hi => hi, fun _ hi => hi⟩
  | head hstep _ ih =>
    obtain ⟨hinv, hleads, hhears⟩ := h.step hstep
    obtain ⟨hlast, hleads', hhears'⟩ := ih hinv
    exact ⟨hlast, fun i hi => hleads' i (hleads i hi), fun i hi => hhears' i (hhears i hi)⟩

/-- In every run of the deployed coordinators: if each of them reaches some peer, none has ever
heard of a leader, and no recovery is triggered.  A leader stays one, and whoever has handled an
announcement is one. -/
theorem deployed_leaders {c : Config ι} {run : List (Transition (Config ι) (Event ι))}
    (hrun : Run (Step (Coordinators.deployed peers) lossy) initial run c) :
    ((∀ k, ∃ j ∈ peers k, ¬lossy k j) → ∀ i, Unelected (c.state i) ∧
        ∀ req, triggerRecovery (c.state i) req =
          ({ success := false, message := str "Not leader" }, c.state i)) ∧
      (∀ t ∈ run, ∀ i, (t.source.state i).isLeader = true → (c.state i).isLeader = true) ∧
      ∀ t ∈ run, ∀ j req, t.label = .announced j req → Unlocked c.threads j →
        (c.state j).isLeader = true := by
  have hinv := (DeployedInv.run hrun deployedInv_initial).1
  have hlater : ∀ t ∈ run, ∃ after, DeployedInv peers lossy t.source ∧
      Step (Coordinators.deployed peers) lossy t.source t.label t.target ∧
      Run (Step (Coordinators.deployed peers) lossy) t.target after c := by
    intro t ht
    obtain ⟨before, after, rfl⟩ := List.append_of_mem ht
    obtain ⟨hbefore, hstep, hafter⟩ := hrun.split_step
    exact ⟨after, (DeployedInv.run hbefore deployedInv_initial).1, hstep, hafter⟩
  refine ⟨fun hreach i => ?_, fun t ht i hi => ?_, fun t ht j req hlabel hreturned => ?_⟩
  · have hcutOff : ¬CutOff peers lossy := by
      intro hcutOff
      obtain ⟨k, hk⟩ := hcutOff
      obtain ⟨j, hj, hreaches⟩ := hreach k
      exact hreaches (hk j hj)
    have hunelected := hinv.unelected hcutOff i
    exact ⟨hunelected, fun req => by rw [triggerRecovery, if_pos hunelected.isLeader]⟩
  · obtain ⟨after, hsource, hstep, hafter⟩ := hlater t ht
    obtain ⟨htarget, hleads, -⟩ := hsource.step hstep
    exact (DeployedInv.run hafter htarget).2.1 i (hleads i hi)
  · obtain ⟨after, hsource, hstep, hafter⟩ := hlater t ht
    rw [hlabel] at hstep
    rcases (DeployedInv.run hafter (hsource.step hstep).1).2.2 j (hears_of_announced hstep) with
      hleader | ⟨req', hfollowing⟩
    · exact hleader
    · have hunlocked := hreturned.frames _ hfollowing rfl
      cases hunlocked

/-- One of two metadata services does not reach the other one, which follows it all the same: both
are leaders, under one id and of one generation. -/
theorem deployed_two_leaders :
    ∃ (run : List (Transition (Config Bool) (Event Bool))) (c : Config Bool),
      Run (Step (Coordinators.deployed fun i => [!i]) fun _ _ => True) initial run c ∧
        (c.state false).isLeader = true ∧ (c.state true).isLeader = true ∧
        (c.state false).generation = (c.state true).generation := by
  let deployed : Coordinators Bool := .deployed fun i => [!i]
  obtain ⟨first, c₁, hfirst, hthread₁, hstate₁, -, -⟩ :=
    @run_partitioned _ _ deployed (fun _ _ => True) false true rfl trivial initial rfl nofun
  obtain ⟨c₂, hsend, hthread₂, hstate₂, -, hmessages₂⟩ :=
    @step_first _ _ deployed (fun _ _ => True) _ _ _ _ _ _ _ hthread₁ nofun rfl
  have hmutex₂ : Unlocked c₂.threads true := hthread₂ ▸ Unlocked.cons nofun rfl
  have hmessage : (true, { leaderId := coordId, generation := (c₁.state false).generation }) ∈
      c₂.announcements := by
    rw [hmessages₂]
    exact List.mem_cons_self
  obtain ⟨c₃, last, c₄, hannounce, hlast, -, hstate₄, hthread₄⟩ := run_follows hmessage hmutex₂
  have hrun := hfirst.trans (.head hsend (.head hannounce hlast))
  obtain ⟨-, hstays, hfollows⟩ := deployed_leaders hrun
  have hreturned : Unlocked c₄.threads true := by
    rw [hthread₄]
    simpa [Unlocked] using hmutex₂
  refine ⟨_, c₄, hrun, ?_, ?_, ?_⟩
  · refine hstays ⟨c₁, _, c₂⟩ (List.mem_append_right _ List.mem_cons_self) false ?_
    rw [hstate₁]
    rfl
  · exact hfollows ⟨c₂, _, c₃⟩
      (List.mem_append_right _ (List.mem_cons_of_mem _ List.mem_cons_self)) true _ rfl hreturned
  · rw [hstate₄, hstate₂, hstate₁]
    rfl

end Coordinator

end StorageEngine
