import StorageEngine.Coordinator.CoordinatorService

/-!
# Moves

The thread of a frame says only when the frame can take a step.  A move is a step
without the threads: some frames are replaced by others, a coordinator changes, and
announcements are sent.  The invariants of the elections are about frames, so they
are proved for moves.
-/

namespace StorageEngine.Coordinator

variable {ι : Type}

/-- The frames of all threads. -/
def Config.frames (c : Config ι) : List (Frame ι) :=
  c.threads.flatten

theorem Unlocked.frames {c : Config ι} {i : ι} (h : Unlocked c.threads i) :
    ∀ f ∈ c.frames, f.self = i → f.stage.locked = false := by
  intro f hf hself
  obtain ⟨thread, hthread, hf⟩ := List.mem_flatten.mp hf
  exact h thread hthread f hf hself

/-- The frames of a list of threads in which the top of one thread is `frames`. -/
private theorem flatten_perm (before after : List (List (Frame ι)))
    (frames below : List (Frame ι)) :
    (before ++ (frames ++ below) :: after).flatten.Perm
      (frames ++ (before.flatten ++ (below ++ after.flatten))) := by
  simp only [List.flatten_append, List.flatten_cons, List.append_assoc]
  exact List.perm_append_comm_assoc _ _ _

variable [DecidableEq ι]

/-- A step from `c` replaces the frames `old` by `new`, and leaves these states and
announcements. -/
inductive Move (C : Coordinators ι) (lossy : ι → ι → Prop) (c : Config ι) :
    Event ι → (old new : List (Frame ι)) → (ι → CoordinatorState) →
      List (ι × LeaderAnnounceRequest) → Prop where
  | begins (i : ι) (starts : Bool) :
      Move C lossy c .other [] (started C i starts) c.state c.announcements
  | advance {i : ι} {stage : Stage ι} {e : Effect ι}
      (hmutex : stage = .naming → Unlocked c.threads i)
      (heffect : Coordinator.advance C i (c.state i) stage = some e) :
      Move C lossy c (eventOf i stage e.next) [⟨i, stage⟩] (e.next.toList.map (⟨i, ·⟩))
        (Function.update c.state i e.state) (e.sent.toList ++ c.announcements)
  | call {i peer : ι} {rest : List ι} {resp : ElectionResponse} {starts : Bool}
      (hserve : requestElection (C.nodeId peer) (c.state peer) (electionRequest C i) =
        (resp, starts)) :
      Move C lossy c .other [⟨i, .asking (peer :: rest)⟩]
        (started C peer starts ++ [⟨i, .awaiting peer rest resp⟩]) c.state c.announcements
  | lose {i peer : ι} {rest : List ι} (hlossy : lossy i peer) :
      Move C lossy c .other [⟨i, .asking (peer :: rest)⟩] [⟨i, .asking rest⟩] c.state
        c.announcements
  | giveUp {i peer : ι} {rest : List ι} {resp : ElectionResponse} (hlossy : lossy i peer) :
      Move C lossy c .other [⟨i, .awaiting peer rest resp⟩] [⟨i, .asking rest⟩] c.state
        c.announcements
  | announce {j : ι} {req : LeaderAnnounceRequest} (hmessage : (j, req) ∈ c.announcements)
      (hmutex : Unlocked c.threads j) :
      Move C lossy c (.announced j req) [] [⟨j, .following req⟩]
        (Function.update c.state j { c.state j with currentLeader := req.leaderId })
        c.announcements
  | serve (i : ι) (store : MetadataStore)
      (hgeneration : store.generation = (c.state i).store.generation) :
      Move C lossy c .other [] []
        (Function.update c.state i { c.state i with store := store }) c.announcements

/-- Every step is a move. -/
theorem Step.move {C : Coordinators ι} {lossy : ι → ι → Prop} {c c' : Config ι} {e : Event ι}
    (h : Step C lossy c e c') :
    ∃ old new rest, c.frames.Perm (old ++ rest) ∧ c'.frames.Perm (new ++ rest) ∧
      Move C lossy c e old new c'.state c'.announcements := by
  cases h with
  | start i hfollower =>
    exact ⟨[], _, c.frames, .refl _, .refl _, .begins i true⟩
  | @advance before after below i stage effect hthread hmutex heffect =>
    refine ⟨_, _, before.flatten ++ (below ++ after.flatten), ?_, flatten_perm _ _ _ _,
      .advance hmutex heffect⟩
    rw [Config.frames, hthread]
    exact flatten_perm before after [⟨i, stage⟩] below
  | @call before after below i peer rest resp starts hthread hserve =>
    refine ⟨[⟨i, .asking (peer :: rest)⟩], _, before.flatten ++ (below ++ after.flatten), ?_, ?_,
      .call hserve⟩
    · rw [Config.frames, hthread]
      exact flatten_perm before after [⟨i, .asking (peer :: rest)⟩] below
    · have hperm := flatten_perm before after
        (started C peer starts ++ [⟨i, .awaiting peer rest resp⟩]) below
      rwa [List.append_assoc _ [_]] at hperm
  | @lose before after below i peer rest hlossy hthread =>
    refine ⟨_, _, before.flatten ++ (below ++ after.flatten), ?_,
      flatten_perm before after [⟨i, .asking rest⟩] below, .lose hlossy⟩
    rw [Config.frames, hthread]
    exact flatten_perm before after [⟨i, .asking (peer :: rest)⟩] below
  | @serveLate j req resp starts hrequest hserve =>
    exact ⟨[], _, c.frames, .refl _, .refl _, .begins j starts⟩
  | @giveUp before after above below i peer rest resp hlossy hthread =>
    refine ⟨[⟨i, .awaiting peer rest resp⟩], [⟨i, .asking rest⟩],
      before.flatten ++ above ++ (below ++ after.flatten), ?_, ?_, .giveUp hlossy⟩
    · rw [Config.frames, hthread]
      simp only [List.flatten_append, List.flatten_cons, List.append_assoc, List.cons_append]
      rw [← List.append_assoc, ← List.append_assoc before.flatten]
      exact List.perm_middle
    · simp only [Config.frames, List.flatten_append, List.flatten_cons, List.cons_append]
      rw [← List.append_assoc]
      exact List.perm_middle
  | @announce j req hmessage hmutex =>
    exact ⟨[], _, c.frames, .refl _, .refl _, .announce hmessage hmutex⟩
  | serve i store hleader hgeneration =>
    exact ⟨[], [], c.frames, .refl _, .refl _, .serve i store hgeneration⟩

end StorageEngine.Coordinator
