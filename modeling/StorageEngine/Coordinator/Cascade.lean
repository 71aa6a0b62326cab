import StorageEngine.Lib.NestedCalls
import StorageEngine.Coordinator.Electable

/-!
# Cascades of elections

An election calls `RequestElection` of its peers, and the handler of a peer with a higher
priority starts an election before it answers.  So one election leads to a cascade of
nested ones, over coordinators that can come up again and in threads whose callers have
given up.

Here each thread, request and announcement carries where it comes from: whether it belongs
to the cascade in question, and the elections that it is nested in.  A request is served at
most once and an announcement delivered at most once; any call can fail at any time.

* `TracedStep.step` and `erases_run`: the steps and runs are those of the coordinators.
* `TracedStep.work_lt`: a step of the cascade lowers the work that is left of it.
* `Traced.Nested.step`: the elections in a chain have rising priorities.
* `cascade_ends`: the steps of a cascade are bounded, it is not nested deeper than there
  are priorities, and it does not get stuck.
-/

namespace StorageEngine.Coordinator

open Lib Lib.NestedCalls

variable {ι : Type}

/-- The coordinators whose elections run in these frames. -/
def elections (frames : List (Frame ι)) : List ι :=
  (frames.filter fun f => !f.stage.locked).map Frame.self

/-- A thread, with the elections that have led to it, the last one first. -/
structure Thread (ι : Type) where
  ours : Bool := false
  callers : List ι := []
  frames : List (Frame ι)

/-- The nested elections, the innermost one first. -/
def Thread.chain (thread : Thread ι) : List ι :=
  elections thread.frames ++ thread.callers

/-- A request whose caller has given up. -/
structure LateRequest (ι : Type) where
  ours : Bool
  callers : List ι
  callee : ι
  req : ElectionRequest

/-- An announcement on its way. -/
structure SentAnnouncement (ι : Type) where
  ours : Bool
  receiver : ι
  req : LeaderAnnounceRequest

structure Traced (ι : Type) where
  state : ι → CoordinatorState := fun _ => {}
  threads : List (Thread ι) := []
  requests : List (LateRequest ι) := []
  announcements : List (SentAnnouncement ι) := []

/-- Who takes a step: the cascade, an `AnnounceLeader` that does not belong to it, or
another thread. -/
inductive Actor where
  | cascade
  | handler
  | others
  deriving DecidableEq, Repr

def actorOf (ours locked : Bool) : Actor :=
  if ours = true then .cascade else if locked = true then .handler else .others

inductive TracedStep [DecidableEq ι] (C : Coordinators ι) :
    Traced ι → Actor → Traced ι → Prop where
  | start {t : Traced ι} (i : ι) (hfollower : (t.state i).isLeader = false) :
      TracedStep C t .others
        { t with threads := { frames := [⟨i, .asking (C.peers i)⟩] } :: t.threads }
  | advance {t : Traced ι} {before after : List (Thread ι)} {ours : Bool} {callers : List ι}
      {below : List (Frame ι)} {i : ι} {stage : Stage ι} {e : Effect ι}
      (hthread : t.threads = before ++ ⟨ours, callers, ⟨i, stage⟩ :: below⟩ :: after)
      (hmutex : stage = .naming → Unlocked (t.threads.map Thread.frames) i)
      (heffect : Coordinator.advance C i (t.state i) stage = some e) :
      TracedStep C t (actorOf ours stage.locked)
        { t with
          state := Function.update t.state i e.state
          threads :=
            before ++ ⟨ours, callers, e.next.toList.map (⟨i, ·⟩) ++ below⟩ :: after
          announcements :=
            e.sent.toList.map (fun sent => ⟨ours, sent.1, sent.2⟩) ++ t.announcements }
  | call {t : Traced ι} {before after : List (Thread ι)} {ours : Bool} {callers : List ι}
      {below : List (Frame ι)} {i peer : ι} {rest : List ι} {resp : ElectionResponse}
      {starts : Bool}
      (hthread : t.threads =
        before ++ ⟨ours, callers, ⟨i, .asking (peer :: rest)⟩ :: below⟩ :: after)
      (hserve : requestElection (C.nodeId peer) (t.state peer) (electionRequest C i) =
        (resp, starts)) :
      TracedStep C t (actorOf ours false)
        { t with
          threads := before ++
            ⟨ours, callers, started C peer starts ++ ⟨i, .awaiting peer rest resp⟩ :: below⟩ ::
              after }
  | lose {t : Traced ι} {before after : List (Thread ι)} {ours : Bool} {callers : List ι}
      {below : List (Frame ι)} {i peer : ι} {rest : List ι}
      (hthread : t.threads =
        before ++ ⟨ours, callers, ⟨i, .asking (peer :: rest)⟩ :: below⟩ :: after) :
      TracedStep C t (actorOf ours false)
        { t with
          threads := before ++ ⟨ours, callers, ⟨i, .asking rest⟩ :: below⟩ :: after
          requests :=
            ⟨ours, i :: (elections below ++ callers), peer, electionRequest C i⟩ :: t.requests }
  | serveLate {t : Traced ι} {before after : List (LateRequest ι)} {ours : Bool}
      {callers : List ι} {j : ι} {req : ElectionRequest} {resp : ElectionResponse}
      {starts : Bool} (hrequest : t.requests = before ++ ⟨ours, callers, j, req⟩ :: after)
      (hserve : requestElection (C.nodeId j) (t.state j) req = (resp, starts)) :
      TracedStep C t (actorOf ours false)
        { t with
          threads := ⟨ours, callers, started C j starts⟩ :: t.threads
          requests := before ++ after }
  | giveUp {t : Traced ι} {before after : List (Thread ι)} {ours : Bool} {callers : List ι}
      {above below : List (Frame ι)} {i peer : ι} {rest : List ι} {resp : ElectionResponse}
      (hthread : t.threads =
        before ++ ⟨ours, callers, above ++ ⟨i, .awaiting peer rest resp⟩ :: below⟩ :: after) :
      TracedStep C t (actorOf ours false)
        { t with
          threads := before ++ ⟨ours, i :: (elections below ++ callers), above⟩ ::
            ⟨ours, callers, ⟨i, .asking rest⟩ :: below⟩ :: after }
  | announce {t : Traced ι} {before after : List (SentAnnouncement ι)} {ours : Bool} {j : ι}
      {req : LeaderAnnounceRequest}
      (hmessage : t.announcements = before ++ ⟨ours, j, req⟩ :: after)
      (hmutex : Unlocked (t.threads.map Thread.frames) j) :
      TracedStep C t (actorOf ours false)
        { t with
          state := Function.update t.state j { t.state j with currentLeader := req.leaderId }
          threads := ⟨ours, [], [⟨j, .following req⟩]⟩ :: t.threads
          announcements := before ++ after }
  | serve {t : Traced ι} (i : ι) (store : MetadataStore)
      (hleader : store.leaderId = (t.state i).store.leaderId)
      (hgeneration : store.generation = (t.state i).store.generation) :
      TracedStep C t .others
        { t with state := Function.update t.state i { t.state i with store := store } }

/-- The cascade begins: the coordinator starts an election. -/
def Traced.trigger (C : Coordinators ι) (i : ι) (t : Traced ι) : Traced ι :=
  { t with threads := ⟨true, [], [⟨i, .asking (C.peers i)⟩]⟩ :: t.threads }

/-! ## The coordinators without the marks -/

/-- The coordinators and their threads are the same, and the messages are among the
others. -/
structure Erases (t : Traced ι) (c : Config ι) : Prop where
  state : c.state = t.state
  threads : c.threads = t.threads.map Thread.frames
  requests : ∀ r ∈ t.requests, (r.callee, r.req) ∈ c.requests
  announcements : ∀ a ∈ t.announcements, (a.receiver, a.req) ∈ c.announcements

theorem erases_initial : Erases ({} : Traced ι) initial where
  state := rfl
  threads := rfl
  requests r h := by cases h
  announcements a h := by cases h

section Erasure

variable [DecidableEq ι] {C : Coordinators ι}

/-- Each step is one of the coordinators, where any call can fail. -/
theorem TracedStep.step {t t' : Traced ι} {actor : Actor} (h : TracedStep C t actor t')
    {c : Config ι} (herases : Erases t c) :
    ∃ event c', Step C (fun _ _ => True) c event c' ∧ Erases t' c' := by
  obtain ⟨hstate, hthreads, hrequests, hannouncements⟩ := herases
  cases h with
  | start i hfollower =>
    exact ⟨_, _, .start i (by rw [hstate, hfollower]),
      ⟨hstate, by rw [hthreads]; rfl, hrequests, hannouncements⟩⟩
  | @advance before after ours callers below i stage e hthread hmutex heffect =>
    have hframes : c.threads =
        before.map Thread.frames ++ (⟨i, stage⟩ :: below) :: after.map Thread.frames := by
      rw [hthreads, hthread, List.map_append, List.map_cons]
    refine ⟨_, _, .advance hframes (by rwa [hthreads]) (by rwa [hstate]), ?_⟩
    refine ⟨by rw [hstate], ?_, hrequests, ?_⟩
    · rw [List.map_append, List.map_cons]
    · simp only [List.forall_mem_append, List.forall_mem_map]
      exact ⟨fun sent hsent => List.mem_append_left _ hsent,
        fun a ha => List.mem_append_right _ (hannouncements a ha)⟩
  | @call before after ours callers below i peer rest resp starts hthread hserve =>
    have hframes : c.threads = before.map Thread.frames ++
        (⟨i, .asking (peer :: rest)⟩ :: below) :: after.map Thread.frames := by
      rw [hthreads, hthread, List.map_append, List.map_cons]
    rw [← hstate] at hserve
    refine ⟨_, _, .call hframes hserve, ⟨hstate, ?_, hrequests, hannouncements⟩⟩
    rw [List.map_append, List.map_cons]
  | @lose before after ours callers below i peer rest hthread =>
    have hframes : c.threads = before.map Thread.frames ++
        (⟨i, .asking (peer :: rest)⟩ :: below) :: after.map Thread.frames := by
      rw [hthreads, hthread, List.map_append, List.map_cons]
    refine ⟨_, _, .lose trivial hframes, ⟨hstate, ?_, ?_, hannouncements⟩⟩
    · rw [List.map_append, List.map_cons]
    · rw [List.forall_mem_cons]
      exact ⟨List.mem_cons_self, fun r hr => List.mem_cons_of_mem _ (hrequests r hr)⟩
  | @serveLate before after ours callers j req resp starts hrequest hserve =>
    rw [hrequest, List.forall_mem_append, List.forall_mem_cons] at hrequests
    rw [← hstate] at hserve
    refine ⟨_, _, .serveLate hrequests.2.1 hserve, ⟨hstate, ?_, ?_, hannouncements⟩⟩
    · rw [hthreads, List.map_cons]
    · exact List.forall_mem_append.mpr ⟨hrequests.1, hrequests.2.2⟩
  | @giveUp before after ours callers above below i peer rest resp hthread =>
    have hframes : c.threads = before.map Thread.frames ++
        (above ++ ⟨i, .awaiting peer rest resp⟩ :: below) :: after.map Thread.frames := by
      rw [hthreads, hthread, List.map_append, List.map_cons]
    refine ⟨_, _, .giveUp trivial hframes, ⟨hstate, ?_, hrequests, hannouncements⟩⟩
    rw [List.map_append, List.map_cons, List.map_cons]
  | @announce before after ours j req hmessage hmutex =>
    rw [hmessage, List.forall_mem_append, List.forall_mem_cons] at hannouncements
    refine ⟨_, _, .announce hannouncements.2.1 (by rwa [hthreads]), ⟨by rw [hstate], ?_,
      hrequests, ?_⟩⟩
    · rw [hthreads, List.map_cons]
    · exact List.forall_mem_append.mpr ⟨hannouncements.1, hannouncements.2.2⟩
  | serve i store hleader hgeneration =>
    exact ⟨_, _, .serve i store (by rw [hstate, hleader]) (by rw [hstate, hgeneration]),
      ⟨by rw [hstate], hthreads, hrequests, hannouncements⟩⟩

/-- A run is one of the coordinators. -/
theorem erases_run {t t' : Traced ι} {trace : List (Transition (Traced ι) Actor)}
    (hrun : Run (TracedStep C) t trace t') {c : Config ι} (herases : Erases t c) :
    ∃ events c', Run (Step C fun _ _ => True) c events c' ∧ Erases t' c' := by
  induction hrun generalizing c with
  | refl t => exact ⟨[], c, .refl c, herases⟩
  | head hstep _ ih =>
    obtain ⟨event, c₁, hfirst, herases₁⟩ := hstep.step herases
    obtain ⟨events, c', hrest, herases'⟩ := ih herases₁
    exact ⟨_, c', .head hfirst hrest, herases'⟩

end Erasure

/-! ## The work of a cascade -/

variable {C : Coordinators ι}

/-- The steps of an election that every peer lets pass: the claim, and the announcements
with what their receivers do. -/
def winningWork (C : Coordinators ι) (i : ι) : ℕ :=
  7 + 5 * (C.peers i).length

/-- The steps of an election with all that is nested in it. -/
def electionWork (C : Coordinators ι) : ι → ℕ :=
  work (2 ^ 64) (fun i => (priority C i).toNat)
    (fun i => 2 * (C.peers i).length + winningWork C i) C.peers

/-- The steps of the election that a request starts, if it starts one. -/
def startedWork (C : Coordinators ι) (j : ι) (requester : UInt64) : ℕ :=
  if requester < priority C j then electionWork C j else 0

/-- The steps of an election that has these peers left to ask. -/
def askingWork (C : Coordinators ι) (i : ι) (rest : List ι) : ℕ :=
  (rest.map fun j => 2 + startedWork C j (priority C i)).sum + winningWork C i

def Stage.work (C : Coordinators ι) (i : ι) : Stage ι → ℕ
  | .asking rest => askingWork C i rest
  | .awaiting _ rest _ => 1 + askingWork C i rest
  | .claiming => 6 + 5 * (C.peers i).length
  | .counting => 5 + 5 * (C.peers i).length
  | .naming => 4 + 5 * (C.peers i).length
  | .loading => 3 + 5 * (C.peers i).length
  | .recording _ => 2 + 5 * (C.peers i).length
  | .announcing rest => 1 + 5 * rest.length
  | .following _ => 3
  | .adopting _ => 2
  | .confirming _ => 1

def framesWork (C : Coordinators ι) (frames : List (Frame ι)) : ℕ :=
  (frames.map fun f => f.stage.work C f.self).sum

def Thread.work (C : Coordinators ι) (thread : Thread ι) : ℕ :=
  if thread.ours = true then framesWork C thread.frames else 0

def LateRequest.work (C : Coordinators ι) (r : LateRequest ι) : ℕ :=
  if r.ours = true then 1 + startedWork C r.callee r.req.priority else 0

def SentAnnouncement.work (a : SentAnnouncement ι) : ℕ :=
  if a.ours = true then 4 else 0

/-- The steps that are left of the cascade. -/
def Traced.work (C : Coordinators ι) (t : Traced ι) : ℕ :=
  (t.threads.map (Thread.work C)).sum + (t.requests.map (LateRequest.work C)).sum +
    (t.announcements.map SentAnnouncement.work).sum

theorem electionWork_eq (C : Coordinators ι) (i : ι) :
    electionWork C i = askingWork C i (C.peers i) := by
  rw [electionWork, work_eq fun i => (priority C i).toNat_lt]
  have hsum : ∀ rest : List ι,
      (rest.map fun j => 2 + startedWork C j (priority C i)).sum =
        2 * rest.length + (rest.map fun j =>
          if (priority C i).toNat < (priority C j).toNat then electionWork C j else 0).sum := by
    intro rest
    induction rest with
    | nil => rfl
    | cons j rest ih =>
      have hfirst : startedWork C j (priority C i) =
          if (priority C i).toNat < (priority C j).toNat then electionWork C j else 0 := rfl
      rw [List.map_cons, List.sum_cons, ih, hfirst, List.map_cons, List.sum_cons,
        List.length_cons]
      omega
  rw [askingWork, hsum, electionWork]
  omega

/-- A step of a thread does not leave more than one step less, with the announcement that it
sends. -/
theorem advance_work {i : ι} {s : CoordinatorState} {stage : Stage ι} {e : Effect ι}
    (h : advance C i s stage = some e) :
    framesWork C (e.next.toList.map (⟨i, ·⟩)) + 4 * e.sent.toList.length + 1 ≤
      stage.work C i := by
  cases advance_cases h with
  | asked => simp [framesWork, Stage.work, askingWork, winningWork]
  | acked => simp [framesWork, Stage.work, Nat.add_comm]
  | announcing =>
    simp [framesWork, Stage.work]
    omega
  | refused | claiming | counting | naming | loading | recording | announced | following
  | adopting | confirming => simp [framesWork, Stage.work]

/-- A served request leads to the work of an election, if the peer has the higher
priority. -/
theorem started_work {j : ι} {s : CoordinatorState} {req : ElectionRequest}
    {resp : ElectionResponse} {starts : Bool}
    (h : requestElection (C.nodeId j) s req = (resp, starts)) :
    framesWork C (started C j starts) = startedWork C j req.priority := by
  unfold requestElection at h
  unfold startedWork priority
  split at h
  · rename_i hlt
    obtain ⟨-, rfl⟩ := Prod.mk.inj h
    rw [if_pos hlt, electionWork_eq]
    simp [started, framesWork, Stage.work]
  · rename_i hnot
    obtain ⟨-, rfl⟩ := Prod.mk.inj h
    rw [if_neg hnot]
    rfl

@[simp] theorem framesWork_nil : framesWork C [] = 0 := rfl

@[simp] theorem framesWork_cons (f : Frame ι) (frames : List (Frame ι)) :
    framesWork C (f :: frames) = f.stage.work C f.self + framesWork C frames := by
  simp [framesWork]

@[simp] theorem framesWork_append (first rest : List (Frame ι)) :
    framesWork C (first ++ rest) = framesWork C first + framesWork C rest := by
  simp [framesWork]

/-- The work of messages of the cascade. -/
theorem sum_work_sent (ours : Bool) (sent : List (ι × LeaderAnnounceRequest)) :
    ((sent.map fun m => (⟨ours, m.1, m.2⟩ : SentAnnouncement ι)).map
      SentAnnouncement.work).sum = if ours = true then 4 * sent.length else 0 := by
  induction sent with
  | nil => simp
  | cons m sent ih =>
    rw [List.map_cons, List.map_cons, List.sum_cons, ih, List.length_cons, SentAnnouncement.work]
    split
    · omega
    · rfl

section Work

variable [DecidableEq ι]

/-- A step of the cascade is one less that is left of it, and no other step adds to it. -/
theorem TracedStep.work_lt {t t' : Traced ι} {actor : Actor} (h : TracedStep C t actor t') :
    t'.work C + (decide (actor = .cascade)).toNat ≤ t.work C := by
  cases h with
  | start i hfollower => simp [Traced.work, Thread.work]
  | @advance before after ours callers below i stage e hthread hmutex heffect =>
    have hwork := advance_work heffect
    unfold Traced.work
    rw [hthread]
    simp only [List.map_append, List.map_cons, List.sum_append, List.sum_cons, Thread.work,
      sum_work_sent, framesWork_append, framesWork_cons]
    cases ours with
    | false => cases hlocked : stage.locked <;> simp [actorOf]
    | true =>
      simp only [actorOf, if_true, decide_true, Bool.toNat_true]
      omega
  | @call before after ours callers below i peer rest resp starts hthread hserve =>
    have hwork := started_work hserve
    unfold Traced.work
    rw [hthread]
    simp only [List.map_append, List.map_cons, List.sum_append, List.sum_cons, Thread.work,
      framesWork_append, framesWork_cons, hwork]
    cases ours with
    | false => simp [actorOf]
    | true =>
      simp only [actorOf, if_true, decide_true, Bool.toNat_true, Stage.work, askingWork,
        electionRequest, priority, List.map_cons, List.sum_cons]
      omega
  | @lose before after ours callers below i peer rest hthread =>
    unfold Traced.work
    rw [hthread]
    simp only [List.map_append, List.map_cons, List.sum_append, List.sum_cons, Thread.work,
      LateRequest.work, framesWork_cons]
    cases ours with
    | false => simp [actorOf]
    | true =>
      simp only [actorOf, if_true, decide_true, Bool.toNat_true, Stage.work, askingWork,
        electionRequest, priority, List.map_cons, List.sum_cons]
      omega
  | @serveLate before after ours callers j req resp starts hrequest hserve =>
    have hwork := started_work hserve
    unfold Traced.work
    rw [hrequest]
    simp only [List.map_append, List.map_cons, List.sum_append, List.sum_cons, Thread.work,
      LateRequest.work, hwork]
    cases ours with
    | false => simp [actorOf]
    | true =>
      simp only [actorOf, if_true, decide_true, Bool.toNat_true]
      omega
  | @giveUp before after ours callers above below i peer rest resp hthread =>
    unfold Traced.work
    rw [hthread]
    simp only [List.map_append, List.map_cons, List.sum_append, List.sum_cons, Thread.work,
      framesWork_append, framesWork_cons]
    cases ours with
    | false => simp [actorOf]
    | true =>
      simp only [actorOf, if_true, decide_true, Bool.toNat_true, Stage.work]
      omega
  | @announce before after ours j req hmessage hmutex =>
    unfold Traced.work
    rw [hmessage]
    simp only [List.map_append, List.map_cons, List.sum_append, List.sum_cons, Thread.work,
      SentAnnouncement.work, framesWork_cons, framesWork_nil, Stage.work]
    cases ours with
    | false => simp [actorOf]
    | true =>
      simp only [actorOf, if_true, decide_true, Bool.toNat_true]
      omega
  | serve i store hleader hgeneration => simp [Traced.work]

end Work

/-! ## Nesting -/

/-- The priorities rise from each election to those nested in it. -/
def Rising (C : Coordinators ι) (chain : List ι) : Prop :=
  chain.Pairwise fun inner outer => priority C outer < priority C inner

/-- The elections of a thread have rising priorities, and only its top frame does not wait
for an answer. -/
structure Thread.Nested (C : Coordinators ι) (thread : Thread ι) : Prop where
  rising : Rising C thread.chain
  waiting : ∀ f ∈ thread.frames.tail, ∃ peer rest resp, f.stage = .awaiting peer rest resp

/-- Every chain of elections has rising priorities, and a request comes from the last
election of its chain. -/
structure Traced.Nested (C : Coordinators ι) (t : Traced ι) : Prop where
  threads : ∀ thread ∈ t.threads, thread.Nested C
  requests : ∀ r ∈ t.requests, Rising C r.callers ∧ ∀ i ∈ r.callers, priority C i ≤ r.req.priority

theorem Rising.le_head {i : ι} {rest : List ι} (h : Rising C (i :: rest)) :
    ∀ k ∈ i :: rest, priority C k ≤ priority C i := by
  intro k hk
  rcases List.mem_cons.mp hk with rfl | hk
  · exact UInt64.le_refl _
  · exact UInt64.le_of_lt ((List.pairwise_cons.mp h).1 k hk)

/-- The election that a request starts has a higher priority than all that it is nested
in. -/
theorem Rising.started {j : ι} {s : CoordinatorState} {req : ElectionRequest}
    {resp : ElectionResponse} {starts : Bool} {callers : List ι} (h : Rising C callers)
    (hcallers : ∀ i ∈ callers, priority C i ≤ req.priority)
    (hserve : requestElection (C.nodeId j) s req = (resp, starts)) :
    Rising C (elections (Coordinator.started C j starts) ++ callers) := by
  unfold requestElection at hserve
  split at hserve
  · rename_i hlt
    obtain ⟨-, rfl⟩ := Prod.mk.inj hserve
    exact List.pairwise_cons.mpr
      ⟨fun i hi => UInt64.lt_of_le_of_lt (hcallers i hi) hlt, h⟩
  · obtain ⟨-, rfl⟩ := Prod.mk.inj hserve
    exact h

/-- The frames of a started election, on top of others. -/
theorem waiting_started {j : ι} {starts : Bool} {frames : List (Frame ι)}
    (h : ∀ f ∈ frames, ∃ peer rest resp, f.stage = .awaiting peer rest resp) :
    ∀ f ∈ (started C j starts ++ frames).tail, ∃ peer rest resp,
      f.stage = .awaiting peer rest resp := by
  cases starts with
  | false => exact fun f hf => h f (List.mem_of_mem_tail hf)
  | true => exact h

/-- A thread stays in an `AnnounceLeader`, or in its elections. -/
theorem advance_locked {i : ι} {s : CoordinatorState} {stage next : Stage ι} {e : Effect ι}
    (h : advance C i s stage = some e) (hnext : e.next = some next) :
    next.locked = stage.locked := by
  cases advance_cases h <;> cases hnext <;> rfl

theorem elections_cons (f : Frame ι) (frames : List (Frame ι)) :
    elections (f :: frames) =
      (if f.stage.locked = true then [] else [f.self]) ++ elections frames := by
  unfold elections
  cases hlocked : f.stage.locked <;> simp [hlocked]

theorem elections_append (first rest : List (Frame ι)) :
    elections (first ++ rest) = elections first ++ elections rest := by
  simp [elections]

/-- A step of a thread ends its election or goes on with it. -/
theorem advance_elections {i : ι} {s : CoordinatorState} {stage : Stage ι} {e : Effect ι}
    (h : advance C i s stage = some e) (below : List (Frame ι)) :
    (elections (e.next.toList.map (⟨i, ·⟩) ++ below)).Sublist
      (elections (⟨i, stage⟩ :: below)) := by
  rw [elections_cons]
  cases hnext : e.next with
  | none => exact List.sublist_append_right _ _
  | some next =>
    rw [show (some next).toList.map (⟨i, ·⟩ : Stage ι → Frame ι) ++ below = ⟨i, next⟩ :: below
      from rfl, elections_cons, advance_locked h hnext]

theorem nested_initial : ({} : Traced ι).Nested C where
  threads thread h := by cases h
  requests r h := by cases h

theorem Traced.Nested.trigger {t : Traced ι} (h : t.Nested C) (i : ι) :
    (t.trigger C i).Nested C := by
  refine ⟨List.forall_mem_cons.mpr ⟨⟨?_, ?_⟩, h.threads⟩, h.requests⟩
  · exact List.pairwise_singleton _ _
  · simp

section Nesting

variable [DecidableEq ι]

theorem Traced.Nested.step {t t' : Traced ι} {actor : Actor} (hstep : TracedStep C t actor t')
    (h : t.Nested C) : t'.Nested C := by
  obtain ⟨hthreads, hrequests⟩ := h
  cases hstep with
  | start i hfollower =>
    refine ⟨List.forall_mem_cons.mpr ⟨⟨?_, ?_⟩, hthreads⟩, hrequests⟩
    · exact List.pairwise_singleton _ _
    · simp
  | @advance before after ours callers below i stage e hthread hmutex heffect =>
    rw [hthread, List.forall_mem_append, List.forall_mem_cons] at hthreads
    obtain ⟨hbefore, hactive, hafter⟩ := hthreads
    refine ⟨List.forall_mem_append.mpr ⟨hbefore, List.forall_mem_cons.mpr ⟨⟨?_, ?_⟩, hafter⟩⟩,
      hrequests⟩
    · exact hactive.rising.sublist ((advance_elections heffect below).append_right callers)
    · intro f hf
      apply hactive.waiting
      cases hnext : e.next with
      | none =>
        rw [hnext] at hf
        exact List.mem_of_mem_tail hf
      | some next =>
        rw [hnext] at hf
        exact hf
  | @call before after ours callers below i peer rest resp starts hthread hserve =>
    rw [hthread, List.forall_mem_append, List.forall_mem_cons] at hthreads
    obtain ⟨hbefore, hactive, hafter⟩ := hthreads
    refine ⟨List.forall_mem_append.mpr ⟨hbefore, List.forall_mem_cons.mpr ⟨⟨?_, ?_⟩, hafter⟩⟩,
      hrequests⟩
    · have hcallers : ∀ k ∈ i :: (elections below ++ callers),
          priority C k ≤ (electionRequest C i).priority := hactive.rising.le_head
      unfold Thread.chain
      rw [elections_append, List.append_assoc]
      exact hactive.rising.started hcallers hserve
    · apply waiting_started
      exact List.forall_mem_cons.mpr ⟨⟨peer, rest, resp, rfl⟩, hactive.waiting⟩
  | @lose before after ours callers below i peer rest hthread =>
    rw [hthread, List.forall_mem_append, List.forall_mem_cons] at hthreads
    obtain ⟨hbefore, hactive, hafter⟩ := hthreads
    refine ⟨List.forall_mem_append.mpr ⟨hbefore, List.forall_mem_cons.mpr ⟨⟨?_, ?_⟩, hafter⟩⟩,
      List.forall_mem_cons.mpr ⟨⟨?_, ?_⟩, hrequests⟩⟩
    · exact hactive.rising
    · exact hactive.waiting
    · exact hactive.rising
    · exact hactive.rising.le_head
  | @serveLate before after ours callers j req resp starts hrequest hserve =>
    rw [hrequest, List.forall_mem_append, List.forall_mem_cons] at hrequests
    obtain ⟨hbefore, ⟨hrising, hcallers⟩, hafter⟩ := hrequests
    refine ⟨List.forall_mem_cons.mpr ⟨⟨?_, ?_⟩, hthreads⟩,
      List.forall_mem_append.mpr ⟨hbefore, hafter⟩⟩
    · exact hrising.started hcallers hserve
    · cases starts <;> simp [started]
  | @giveUp before after ours callers above below i peer rest resp hthread =>
    rw [hthread, List.forall_mem_append, List.forall_mem_cons] at hthreads
    obtain ⟨hbefore, ⟨hrising, hwaiting⟩, hafter⟩ := hthreads
    have hchain : Rising C (elections above ++ (i :: (elections below ++ callers))) := by
      unfold Thread.chain at hrising
      rwa [elections_append, List.append_assoc] at hrising
    refine ⟨List.forall_mem_append.mpr ⟨hbefore, List.forall_mem_cons.mpr ⟨⟨hchain, ?_⟩,
      List.forall_mem_cons.mpr ⟨⟨?_, ?_⟩, hafter⟩⟩⟩, hrequests⟩
    · intro f hf
      apply hwaiting
      cases above with
      | nil => simp at hf
      | cons top above => exact List.mem_append_left _ hf
    · exact hchain.sublist (List.sublist_append_right _ _)
    · intro f hf
      apply hwaiting
      cases above with
      | nil => exact hf
      | cons top above => exact List.mem_append_right _ (List.mem_cons_of_mem _ hf)
  | @announce before after ours j req hmessage hmutex =>
    refine ⟨List.forall_mem_cons.mpr ⟨⟨?_, ?_⟩, hthreads⟩, hrequests⟩
    · exact List.Pairwise.nil
    · simp
  | serve i store hleader hgeneration => exact ⟨hthreads, hrequests⟩

/-- The top frame of a thread can take a step, when it does not wait for the mutex. -/
theorem tracedStep_top {t : Traced ι} {before after : List (Thread ι)} {ours : Bool}
    {callers : List ι} {below : List (Frame ι)} {i : ι} {stage : Stage ι}
    (hthread : t.threads = before ++ ⟨ours, callers, ⟨i, stage⟩ :: below⟩ :: after)
    (hmutex : stage = .naming → Unlocked (t.threads.map Thread.frames) i) :
    ∃ t', TracedStep C t (actorOf ours stage.locked) t' := by
  cases stage with
  | asking rest =>
    cases rest with
    | nil => exact ⟨_, .advance hthread hmutex rfl⟩
    | cons peer rest => exact ⟨_, .call hthread rfl⟩
  | announcing rest =>
    cases rest with
    | nil => exact ⟨_, .advance hthread hmutex rfl⟩
    | cons peer rest => exact ⟨_, .advance hthread hmutex rfl⟩
  | awaiting | claiming | counting | naming | loading | recording | following | adopting
    | confirming => exact ⟨_, .advance hthread hmutex rfl⟩

/-- A cascade that has not ended can go on, or an `AnnounceLeader` can that holds the mutex
that it waits for. -/
theorem Traced.Nested.progress {t : Traced ι} (h : t.Nested C) {thread : Thread ι}
    (hthread : thread ∈ t.threads) (hours : thread.ours = true) (hframes : thread.frames ≠ []) :
    ∃ actor t', TracedStep C t actor t' ∧ actor ≠ .others := by
  obtain ⟨ours, callers, frames⟩ := thread
  obtain ⟨⟨i, stage⟩, below, rfl⟩ := List.exists_cons_of_ne_nil hframes
  obtain ⟨before, after, hsplit⟩ := List.append_of_mem hthread
  by_cases hmutex : stage = .naming → Unlocked (t.threads.map Thread.frames) i
  · obtain ⟨t', hstep⟩ := tracedStep_top hsplit hmutex
    refine ⟨_, t', hstep, ?_⟩
    rw [show ours = true from hours]
    simp [actorOf]
  · -- a frame that holds the mutex waits for nobody, so it is the top of its thread
    simp only [Unlocked, List.forall_mem_map, not_forall, Bool.not_eq_false] at hmutex
    obtain ⟨-, ⟨ours', callers', frames'⟩, hholder, f, hf, -, hlocked⟩ := hmutex
    obtain ⟨top, rest, rfl⟩ := List.exists_cons_of_ne_nil (List.ne_nil_of_mem hf)
    have htop : f = top := by
      rcases List.mem_cons.mp hf with heq | hrest
      · exact heq
      · obtain ⟨peer, left, resp, hstage⟩ := (h.threads _ hholder).waiting f hrest
        rw [hstage] at hlocked
        cases hlocked
    subst htop
    obtain ⟨j, holding⟩ := f
    obtain ⟨before', after', hsplit'⟩ := List.append_of_mem hholder
    have hother : holding ≠ .naming := by
      intro hnaming
      rw [hnaming] at hlocked
      cases hlocked
    obtain ⟨t', hstep⟩ : ∃ t', TracedStep C t (actorOf ours' holding.locked) t' :=
      tracedStep_top hsplit' (absurd · hother)
    refine ⟨_, t', hstep, ?_⟩
    rw [show holding.locked = true from hlocked]
    cases ours' <;> simp [actorOf]

/-! ## The end of a cascade -/

/-- The cascade of one election, in any run of the coordinators: it takes a number of steps
that only depends on the priorities and the peers, its elections are not nested deeper than
there are priorities, and until it has ended it does not get stuck. -/
theorem cascade_ends [Fintype ι] (i : ι) {t t' : Traced ι}
    {earlier trace : List (Transition (Traced ι) Actor)}
    (hreached : Run (TracedStep C) {} earlier t)
    (hrun : Run (TracedStep C) (t.trigger C i) trace t') :
    (trace.countP fun step => decide (step.label = .cascade)) ≤ electionWork C i ∧
      (∀ thread ∈ t'.threads, thread.chain.length ≤ (Finset.univ.image (priority C)).card) ∧
      ((∃ thread ∈ t'.threads, thread.ours = true ∧ thread.frames ≠ []) →
        ∃ actor t'', TracedStep C t' actor t'' ∧ actor ≠ .others) := by
  have hnested : t'.Nested C := by
    have hstep : ∀ t actor t', TracedStep C t actor t' → t.Nested C → t'.Nested C :=
      fun _ _ _ hstep h => h.step hstep
    exact hrun.invariant hstep ((hreached.invariant hstep nested_initial).trigger i)
  have hwork : (t.trigger C i).work C = electionWork C i + t.work C := by
    simp only [Traced.work, Traced.trigger, List.map_cons, List.sum_cons, Thread.work, if_true,
      framesWork_cons, framesWork_nil, Stage.work, electionWork_eq]
    omega
  have hbefore := hreached.count_le (Traced.work C) (fun actor => decide (actor = .cascade))
    fun _ _ _ hstep => hstep.work_lt
  have hafter := hrun.count_le (Traced.work C) (fun actor => decide (actor = .cascade))
    fun _ _ _ hstep => hstep.work_lt
  have hnone : ({} : Traced ι).work C = 0 := rfl
  refine ⟨by omega, fun thread hthread => ?_, fun h => ?_⟩
  · have : Std.Irrefl (α := UInt64) (· < ·) := ⟨UInt64.lt_irrefl⟩
    exact length_le_card_image (hnested.threads thread hthread).rising
  · obtain ⟨thread, hthread, hours, hframes⟩ := h
    exact hnested.progress hthread hours hframes

end Nesting

/-- Two coordinators that call each other and themselves. -/
def bothCoordinators : Coordinators Bool where
  nodeId
    | false => str "a"
    | true => str "b"
  peers _ := [true, false]

/-- The lower one of two coordinators calls the higher one, whose election is nested in the
first one: there are two priorities. -/
theorem cascade_ends_both : ∃ trace t',
    Run (TracedStep bothCoordinators) (Traced.trigger bothCoordinators false {}) trace t' ∧
      1 ≤ electionWork bothCoordinators false ∧
      ∃ thread ∈ t'.threads, thread.chain = [true, false] ∧
        2 ≤ (Finset.univ.image (priority bothCoordinators)).card := by
  have hcall : TracedStep bothCoordinators (Traced.trigger bothCoordinators false {}) .cascade _ :=
    @TracedStep.call _ _ _ _ [] [] true [] [] false true [false] _ _ rfl rfl
  obtain ⟨hsteps, hdepth, -⟩ :=
    cascade_ends false (.refl _) (.head hcall (.refl _))
  refine ⟨_, _, .head hcall (.refl _), ?_, _, List.mem_cons_self, rfl, ?_⟩
  · exact hsteps
  · exact hdepth _ List.mem_cons_self

end StorageEngine.Coordinator
