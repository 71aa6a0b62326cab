import StorageEngine.Coordinator.Generation

/-!
# The view of the leader

A coordinator keeps its leader in `is_leader_`, in `current_leader_` and in its metadata
store, and the generation in `generation_` and in the store.  An election and an
`AnnounceLeader` write them one after the other.  The handler holds the mutex meanwhile,
but the election takes it for `current_leader_` only, so a handler can run between two
assignments of an election.  This module proves when the places agree once all threads of
a coordinator have returned.
-/

namespace StorageEngine.Coordinator

open Lib

variable {ι : Type}

/-- The places agree on the leader and on the generation. -/
structure Consistent (nodeId : Str) (s : CoordinatorState) : Prop where
  isLeader : s.isLeader = true ↔ s.currentLeader = nodeId
  leaderId : s.store.leaderId = s.currentLeader
  generation : s.store.generation = s.generation

/-- The thread has made its first assignment and has others left. -/
def Stage.busy : Stage ι → Bool
  | .asking _ | .awaiting _ _ _ | .claiming | .announcing _ => false
  | .counting | .naming | .loading | .recording _ => true
  | .following _ | .adopting _ | .confirming _ => true

/-- The step takes a thread of the coordinator from a stage to the next one. -/
def Takes (t : Transition (Config ι) (Event ι)) (i : ι) (stage : Stage ι)
    (next : Option (Stage ι)) : Prop :=
  ∃ before below after, t.source.threads = before ++ (⟨i, stage⟩ :: below) :: after ∧
    t.target.threads = before ++ (next.toList.map (⟨i, ·⟩) ++ below) :: after

/-- No announcement overtakes an election in this step.  The election assigns
`current_leader_` while it is the leader.  When no other thread is going to write after it,
it records the generation of its coordinator, and the coordinator still follows itself. -/
structure InOrder (C : Coordinators ι) (t : Transition (Config ι) (Event ι)) : Prop where
  naming : ∀ i, Takes t i .naming (some .loading) → (t.source.state i).isLeader = true
  recording : ∀ i generation,
    Takes t i (.recording generation) (some (.announcing (C.peers i))) →
      (∀ f ∈ t.target.frames, f.self = i → f.stage.busy = false) →
        (t.source.state i).currentLeader = C.nodeId i ∧
          (t.source.state i).generation = generation

/-! ## The invariant -/

/-- The announcement that the handler carries out. -/
def Stage.request : Stage ι → Option LeaderAnnounceRequest
  | .following req | .adopting req | .confirming req => some req
  | _ => none

theorem Stage.request_of_unlocked {stage : Stage ι} (h : stage.locked = false) :
    stage.request = none := by
  cases stage with
  | following | adopting | confirming => cases h
  | _ => rfl

/-- The thread is going to assign `current_leader_` or `is_leader_`. -/
def Stage.decides : Stage ι → Bool
  | .counting | .naming | .following _ => true
  | _ => false

/-- What the busy threads of a coordinator leave to be done. -/
structure Settling (nodeId : Str) (s : CoordinatorState) (stages : List (Stage ι)) :
    Prop where
  exclusive : stages.countP Stage.locked ≤ 1
  follows : ∀ stage ∈ stages, ∀ req, stage.request = some req → s.currentLeader = req.leaderId
  adopted : ∀ req, Stage.confirming req ∈ stages →
    s.generation = req.generation ∨ Stage.naming ∈ stages
  leads : s.isLeader = true → s.currentLeader = nodeId ∨ ∃ stage ∈ stages, stage.decides = true
  yields : s.isLeader = false →
    s.currentLeader ≠ nodeId ∨ ∃ req, Stage.following req ∈ stages
  leaderId : s.store.leaderId = s.currentLeader ∨ stages ≠ []
  generation : s.store.generation = s.generation ∨ stages ≠ []

/-- Without a busy thread nothing is left to be done. -/
theorem Settling.consistent {nodeId : Str} {s : CoordinatorState}
    (h : Settling nodeId s ([] : List (Stage ι))) : Consistent nodeId s where
  isLeader := by
    constructor
    · intro hleader
      rcases h.leads hleader with hnode | ⟨stage, hstage, -⟩
      · exact hnode
      · cases hstage
    · intro hnode
      by_contra hleader
      rw [Bool.not_eq_true] at hleader
      rcases h.yields hleader with hother | ⟨req, hreq⟩
      · exact hother hnode
      · cases hreq
  leaderId := h.leaderId.resolve_right (by simp)
  generation := h.generation.resolve_right (by simp)

theorem settling_initial {nodeId : Str} (hnode : nodeId ≠ []) :
    Settling nodeId ({} : CoordinatorState) ([] : List (Stage ι)) where
  exclusive := Nat.zero_le 1
  follows _ hstage := by cases hstage
  adopted _ hreq := by cases hreq
  leads hleader := by cases hleader
  yields _ := .inl hnode.symm
  leaderId := .inl rfl
  generation := .inl rfl

theorem Settling.of_perm {nodeId : Str} {s : CoordinatorState} {stages stages' : List (Stage ι)}
    (h : Settling nodeId s stages) (hperm : stages.Perm stages') : Settling nodeId s stages' where
  exclusive := by
    rw [← hperm.countP_eq]
    exact h.exclusive
  follows stage hstage := h.follows stage (hperm.mem_iff.mpr hstage)
  adopted req hreq := by
    rw [← hperm.mem_iff] at hreq ⊢
    exact h.adopted req hreq
  leads := by simpa only [hperm.mem_iff] using h.leads
  yields := by simpa only [hperm.mem_iff] using h.yields
  leaderId := h.leaderId.imp_right fun hbusy hnil => hbusy (hnil ▸ hperm).eq_nil
  generation := h.generation.imp_right fun hbusy hnil => hbusy (hnil ▸ hperm).eq_nil

section Advance

variable {C : Coordinators ι} {i : ι} {s : CoordinatorState} {rest : List (Stage ι)}

theorem Settling.claiming (h : Settling (C.nodeId i) s rest) :
    Settling (C.nodeId i) { s with isLeader := true } (.counting :: rest) where
  exclusive := by
    rw [List.countP_cons_of_neg (by simp [Stage.locked])]
    exact h.exclusive
  follows := by
    intro stage hstage req hreq
    rcases List.mem_cons.mp hstage with rfl | hstage
    · cases hreq
    · exact h.follows stage hstage req hreq
  adopted := by
    simpa using h.adopted
  leads _ := .inr ⟨.counting, List.mem_cons_self, rfl⟩
  yields hleader := by cases hleader
  leaderId := .inr (by simp)
  generation := .inr (by simp)

theorem Settling.counting (h : Settling (C.nodeId i) s (.counting :: rest)) :
    Settling (C.nodeId i) { s with generation := s.generation + 1 } (.naming :: rest) where
  exclusive := by simpa [Stage.locked] using h.exclusive
  follows := by simpa [Stage.request] using h.follows
  adopted req hreq := .inr List.mem_cons_self
  leads _ := .inr ⟨.naming, List.mem_cons_self, rfl⟩
  yields hleader := by simpa using h.yields hleader
  leaderId := .inr (by simp)
  generation := .inr (by simp)

theorem Settling.naming (h : Settling (C.nodeId i) s (.naming :: rest))
    (hmutex : ∀ stage ∈ rest, stage.locked = false) (hleader : s.isLeader = true) :
    Settling (C.nodeId i) { s with currentLeader := C.nodeId i } (.loading :: rest) where
  exclusive := by simpa [Stage.locked] using h.exclusive
  follows := by
    intro stage hstage req hreq
    rcases List.mem_cons.mp hstage with rfl | hstage
    · cases hreq
    · rw [Stage.request_of_unlocked (hmutex stage hstage)] at hreq
      cases hreq
  adopted req hreq := by
    have hreq : Stage.confirming req ∈ rest := by simpa using hreq
    exact absurd (hmutex _ hreq) (by simp [Stage.locked])
  leads _ := .inl rfl
  yields hfollower := by
    rw [hleader] at hfollower
    cases hfollower
  leaderId := .inr (by simp)
  generation := .inr (by simp)

theorem Settling.loading (h : Settling (C.nodeId i) s (.loading :: rest)) (generation : UInt64) :
    Settling (C.nodeId i) s (.recording generation :: rest) where
  exclusive := by simpa [Stage.locked] using h.exclusive
  follows := by simpa [Stage.request] using h.follows
  adopted := by simpa using h.adopted
  leads := by simpa [Stage.decides] using h.leads
  yields := by simpa using h.yields
  leaderId := .inr (by simp)
  generation := .inr (by simp)

theorem Settling.recording {generation : UInt64}
    (h : Settling (C.nodeId i) s (.recording generation :: rest))
    (hlast : rest = [] → s.currentLeader = C.nodeId i ∧ s.generation = generation) :
    Settling (C.nodeId i) { s with store := s.store.setLeader (C.nodeId i) generation } rest where
  exclusive := by simpa [Stage.locked] using h.exclusive
  follows := by simpa [Stage.request] using h.follows
  adopted := by simpa using h.adopted
  leads := by simpa [Stage.decides] using h.leads
  yields := by simpa using h.yields
  leaderId := by
    by_cases hrest : rest = []
    · exact .inl (hlast hrest).1.symm
    · exact .inr hrest
  generation := by
    by_cases hrest : rest = []
    · exact .inl (hlast hrest).2.symm
    · exact .inr hrest

/-- `AnnounceLeader` begins. -/
theorem Settling.announce (hmutex : ∀ stage ∈ rest, stage.locked = false)
    (req : LeaderAnnounceRequest) :
    Settling (C.nodeId i) { s with currentLeader := req.leaderId } (.following req :: rest) where
  exclusive := by
    rw [List.countP_cons_of_pos rfl, List.countP_eq_zero.mpr (by simpa using hmutex)]
  follows := by
    intro stage hstage req' hreq
    rcases List.mem_cons.mp hstage with rfl | hstage
    · cases hreq
      rfl
    · rw [Stage.request_of_unlocked (hmutex stage hstage)] at hreq
      cases hreq
  adopted req' hreq := by
    have hreq : Stage.confirming req' ∈ rest := by simpa using hreq
    exact absurd (hmutex _ hreq) (by simp [Stage.locked])
  leads _ := .inr ⟨.following req, List.mem_cons_self, rfl⟩
  yields _ := .inr ⟨req, List.mem_cons_self⟩
  leaderId := .inr (by simp)
  generation := .inr (by simp)

theorem Settling.following {req : LeaderAnnounceRequest}
    (h : Settling (C.nodeId i) s (.following req :: rest)) :
    Settling (C.nodeId i) { s with isLeader := decide (req.leaderId = C.nodeId i) }
      (.adopting req :: rest) := by
  have hcurrent := h.follows (.following req) List.mem_cons_self req rfl
  constructor
  · simpa [List.countP_cons, Stage.locked] using h.exclusive
  · simpa [Stage.request] using h.follows
  · simpa using h.adopted
  · intro hleader
    left
    rw [hcurrent]
    exact of_decide_eq_true hleader
  · intro hfollower
    left
    rw [hcurrent]
    exact of_decide_eq_false hfollower
  · simp
  · simp

/-- Only one of the threads holds the mutex. -/
theorem Settling.unlocked {stage : Stage ι} (h : Settling (C.nodeId i) s (stage :: rest))
    (hlocked : stage.locked = true) : ∀ other ∈ rest, other.locked = false := by
  have hexclusive := h.exclusive
  rw [List.countP_cons_of_pos hlocked] at hexclusive
  have hnone : rest.countP Stage.locked = 0 := by omega
  simpa using List.countP_eq_zero.mp hnone

theorem Settling.adopting {req : LeaderAnnounceRequest}
    (h : Settling (C.nodeId i) s (.adopting req :: rest)) :
    Settling (C.nodeId i) { s with generation := req.generation } (.confirming req :: rest) := by
  have hothers := h.unlocked rfl
  constructor
  · simpa [List.countP_cons, Stage.locked] using h.exclusive
  · simpa [Stage.request] using h.follows
  · intro req' hreq
    rcases List.mem_cons.mp hreq with hsame | hreq
    · cases hsame
      exact .inl rfl
    · exact absurd (hothers _ hreq) (by simp [Stage.locked])
  · simpa [Stage.decides] using h.leads
  · simpa using h.yields
  · simp
  · simp

theorem Settling.confirming {req : LeaderAnnounceRequest}
    (h : Settling (C.nodeId i) s (.confirming req :: rest)) :
    Settling (C.nodeId i) { s with store := s.store.setLeader req.leaderId req.generation }
      rest := by
  have hothers := h.unlocked rfl
  have hcurrent := h.follows (.confirming req) List.mem_cons_self req rfl
  have hadopted := h.adopted req List.mem_cons_self
  constructor
  · rw [List.countP_eq_zero.mpr (by simpa using hothers)]
    exact Nat.zero_le 1
  · intro stage hstage
    exact h.follows stage (List.mem_cons_of_mem _ hstage)
  · intro req' hreq
    exact absurd (hothers _ hreq) (by simp [Stage.locked])
  · simpa [Stage.decides] using h.leads
  · simpa using h.yields
  · exact .inl hcurrent.symm
  · by_cases hrest : rest = []
    · left
      rw [hrest] at hadopted
      exact (hadopted.resolve_right (by simp)).symm
    · exact .inr hrest

/-- The busy ones of some stages. -/
def busyStages (stages : List (Stage ι)) : List (Stage ι) :=
  stages.filter Stage.busy

/-- A step of a thread, when no announcement overtakes it. -/
theorem Settling.advance {stage : Stage ι} {e : Effect ι}
    (h : Settling (C.nodeId i) s (busyStages [stage] ++ rest))
    (hadvance : Coordinator.advance C i s stage = some e)
    (hmutex : stage = .naming → ∀ other ∈ rest, other.locked = false)
    (hnaming : stage = .naming → s.isLeader = true)
    (hrecording : ∀ generation, stage = .recording generation → rest = [] →
      s.currentLeader = C.nodeId i ∧ s.generation = generation) :
    Settling (C.nodeId i) e.state (busyStages e.next.toList ++ rest) := by
  cases advance_cases hadvance with
  | asked | refused | acked | announced | announcing => exact h
  | claiming => exact h.claiming
  | counting => exact h.counting
  | naming => exact h.naming (hmutex rfl) (hnaming rfl)
  | loading => exact h.loading s.generation
  | recording => exact h.recording (hrecording _ rfl)
  | following => exact h.following
  | adopting => exact h.adopting
  | confirming => exact h.confirming

end Advance

/-! ## Runs -/

/-- The next stage of a thread that a coordinator has, if it is busy. -/
def busyAt [DecidableEq ι] (i : ι) (f : Frame ι) : Option (Stage ι) :=
  if f.self = i ∧ f.stage.busy = true then some f.stage else none

/-- The stages of the busy threads of a coordinator. -/
def Config.busy [DecidableEq ι] (c : Config ι) (i : ι) : List (Stage ι) :=
  c.frames.filterMap (busyAt i)

variable [DecidableEq ι]

theorem busyAt_of_ne {i : ι} {f : Frame ι} (h : f.self ≠ i) : busyAt i f = none := by
  simp [busyAt, h]

/-- The top frames of a thread stand in front of the others. -/
theorem busy_split {c : Config ι} {before after : List (List (Frame ι))}
    {top below : List (Frame ι)} (i : ι)
    (hthreads : c.threads = before ++ (top ++ below) :: after) :
    (c.busy i).Perm (top.filterMap (busyAt i) ++
      (before.flatten ++ (below ++ after.flatten)).filterMap (busyAt i)) := by
  rw [Config.busy, Config.frames, hthreads, ← List.filterMap_append]
  refine List.Perm.filterMap _ ?_
  simp only [List.flatten_append, List.flatten_cons, List.append_assoc]
  exact List.perm_append_comm_assoc _ _ _

/-- A thread whose top frames are replaced by others changes the busy stages of the
coordinators of these frames. -/
theorem busy_replace {c c' : Config ι} {before after : List (List (Frame ι))}
    {top top' below : List (Frame ι)} (i : ι)
    (hthreads : c.threads = before ++ (top ++ below) :: after)
    (hthreads' : c'.threads = before ++ (top' ++ below) :: after) :
    ∃ rest, (c.busy i).Perm (top.filterMap (busyAt i) ++ rest) ∧
      (c'.busy i).Perm (top'.filterMap (busyAt i) ++ rest) :=
  ⟨_, busy_split i hthreads, busy_split i hthreads'⟩

theorem started_idle {C : Coordinators ι} {j : ι} {starts : Bool} (i : ι) :
    (started C j starts).filterMap (busyAt i) = [] := by
  cases starts <;> simp [started, busyAt, Stage.busy]

/-- The stages of a coordinator, out of the frames of one of its threads. -/
theorem busyAt_self (i : ι) (stages : List (Stage ι)) :
    (stages.map (⟨i, ·⟩)).filterMap (busyAt i) = busyStages stages := by
  induction stages with
  | nil => rfl
  | cons stage stages ih =>
    cases hbusy : stage.busy <;>
      simpa [busyAt, busyStages, List.filter_cons, hbusy] using ih

theorem busyAt_other {i j : ι} (hne : j ≠ i) (stages : List (Stage ι)) :
    (stages.map (⟨j, ·⟩)).filterMap (busyAt i) = [] := by
  simp [busyAt_of_ne, hne]

/-- The mutex is not held by a busy thread. -/
theorem Unlocked.busy {c : Config ι} {i : ι} (h : Unlocked c.threads i) :
    ∀ stage ∈ c.busy i, stage.locked = false := by
  intro stage hstage
  obtain ⟨f, hf, hbusy⟩ := List.mem_filterMap.mp hstage
  by_cases hself : f.self = i ∧ f.stage.busy = true
  · rw [busyAt, if_pos hself] at hbusy
    cases hbusy
    exact h.frames f hf hself.1
  · rw [busyAt, if_neg hself] at hbusy
    cases hbusy

/-- A frame that is not idle is in the busy stages. -/
theorem idle_of_busy_nil {c : Config ι} {i : ι} (h : c.busy i = []) :
    ∀ f ∈ c.frames, f.self = i → f.stage.busy = false := by
  intro f hf hself
  by_contra hbusy
  rw [Bool.not_eq_false] at hbusy
  have hmem : f.stage ∈ c.busy i :=
    List.mem_filterMap.mpr ⟨f, hf, by rw [busyAt, if_pos ⟨hself, hbusy⟩]⟩
  rw [h] at hmem
  cases hmem

/-- Every coordinator is consistent or has a thread that will see to it. -/
def ViewInv (C : Coordinators ι) (c : Config ι) : Prop :=
  ∀ i, Settling (C.nodeId i) (c.state i) (c.busy i)

theorem viewInv_initial {C : Coordinators ι} (hids : ∀ i, C.nodeId i ≠ [])
    (messages : List (ι × LeaderAnnounceRequest)) :
    ViewInv C { (initial : Config ι) with announcements := messages } :=
  fun i => settling_initial (hids i)

variable {C : Coordinators ι} {lossy : ι → ι → Prop} {c c' : Config ι}

/-- A step that changes no state and no busy thread. -/
theorem ViewInv.idle (h : ViewInv C c) (hstate : c'.state = c.state)
    (hbusy : ∀ i, (c.busy i).Perm (c'.busy i)) : ViewInv C c' := by
  intro i
  rw [hstate]
  exact (h i).of_perm (hbusy i)

/-- A step that replaces idle frames by idle ones. -/
theorem ViewInv.replace (h : ViewInv C c) (hstate : c'.state = c.state)
    {before after : List (List (Frame ι))} {below : List (Frame ι)} (top top' : List (Frame ι))
    (hthreads : c.threads = before ++ (top ++ below) :: after)
    (hthreads' : c'.threads = before ++ (top' ++ below) :: after)
    (htop : ∀ i, top.filterMap (busyAt i) = []) (htop' : ∀ i, top'.filterMap (busyAt i) = []) :
    ViewInv C c' := by
  refine h.idle hstate fun i => ?_
  obtain ⟨rest, hold, hnew⟩ := busy_replace i hthreads hthreads'
  rw [htop i] at hold
  rw [htop' i] at hnew
  exact hold.trans hnew.symm

theorem ViewInv.step {e : Event ι} (h : ViewInv C c) (hstep : Step C lossy c e c')
    (horder : InOrder C ⟨c, e, c'⟩) : ViewInv C c' := by
  cases hstep with
  | start j hfollower =>
    refine h.idle rfl fun i => ?_
    simp [Config.busy, Config.frames, busyAt, Stage.busy]
  | @serveLate j req resp starts hrequest hserve =>
    refine h.idle rfl fun i => ?_
    simp [Config.busy, Config.frames, started_idle]
  | @call before after below j peer rest resp starts hthread hserve =>
    refine h.replace rfl [⟨j, .asking (peer :: rest)⟩]
      (started C peer starts ++ [⟨j, .awaiting peer rest resp⟩]) hthread ?_ ?_ ?_
    · simp
    · intro i
      simp [busyAt, Stage.busy]
    · intro i
      simp [started_idle, busyAt, Stage.busy]
  | @lose before after below j peer rest hlossy hthread =>
    refine h.replace rfl [⟨j, .asking (peer :: rest)⟩] [⟨j, .asking rest⟩] hthread rfl ?_ ?_
    · intro i
      simp [busyAt, Stage.busy]
    · intro i
      simp [busyAt, Stage.busy]
  | @giveUp before after above below j peer rest resp hlossy hthread =>
    refine h.idle rfl fun i => ?_
    simp [Config.busy, Config.frames, hthread, busyAt, Stage.busy]
  | @advance before after below j stage effect hthread hmutex heffect =>
    intro i
    obtain ⟨rest, hold, hnew⟩ := @busy_replace _ _ c
      { c with
        state := Function.update c.state j effect.state
        threads := before ++ (effect.next.toList.map (⟨j, ·⟩) ++ below) :: after
        announcements := effect.sent.toList ++ c.announcements } _ _
      ([stage].map (⟨j, ·⟩)) _ _ i hthread rfl
    by_cases hij : j = i
    · subst hij
      rw [busyAt_self] at hold hnew
      have hview := (h j).of_perm hold
      simp only [Function.update_self]
      refine (hview.advance heffect ?_ ?_ ?_).of_perm hnew.symm
      · intro hstage other hother
        exact (hmutex hstage).busy other (hold.mem_iff.mpr (List.mem_append_right _ hother))
      · intro hstage
        subst hstage
        cases heffect
        exact horder.naming j ⟨before, below, after, hthread, rfl⟩
      · intro generation hstage hrest
        subst hstage
        cases heffect
        have hidle := hnew.trans (.of_eq (congrArg _ hrest))
        exact horder.recording j generation ⟨before, below, after, hthread, rfl⟩
          (idle_of_busy_nil hidle.eq_nil)
    · rw [busyAt_other hij] at hold hnew
      simp only [Function.update_of_ne (Ne.symm hij)]
      exact (h i).of_perm (hold.trans hnew.symm)
  | @announce j req hmessage hmutex =>
    intro i
    by_cases hij : j = i
    · subst hij
      simp only [Function.update_self]
      refine Settling.of_perm (Settling.announce hmutex.busy req) (.of_eq ?_)
      simp [Config.busy, Config.frames, busyAt, Stage.busy]
    · simp only [Function.update_of_ne (Ne.symm hij)]
      refine (h i).of_perm (.of_eq ?_)
      simp [Config.busy, Config.frames, busyAt, hij]
  | serve j store hleader hgeneration =>
    intro i
    by_cases hij : j = i
    · subst hij
      simp only [Function.update_self]
      have hview := h j
      exact ⟨hview.exclusive, hview.follows, hview.adopted, hview.leads, hview.yields,
        hleader ▸ hview.leaderId, hgeneration ▸ hview.generation⟩
    · simp only [Function.update_of_ne (Ne.symm hij)]
      exact h i

/-- In every run in which no announcement overtakes an election, whatever announcements
are delivered, a coordinator without a running election or handler is consistent. -/
theorem leader_view_consistent (hids : ∀ i, C.nodeId i ≠ [])
    {messages : List (ι × LeaderAnnounceRequest)} {trace : List (Transition (Config ι) (Event ι))}
    (hrun : Run (Step C lossy) { (initial : Config ι) with announcements := messages } trace c)
    (horder : ∀ t ∈ trace, InOrder C t) (i : ι) (hdone : ∀ f ∈ c.frames, f.self ≠ i) :
    Consistent (C.nodeId i) (c.state i) := by
  have hview : ViewInv C c :=
    hrun.invariant_of (fun _ _ _ hstep h horder => h.step hstep horder)
      (viewInv_initial hids messages) horder
  have hbusy : c.busy i = [] := by
    rw [Config.busy, List.filterMap_eq_nil_iff]
    intro f hf
    exact busyAt_of_ne (hdone f hf)
  exact (hbusy ▸ hview i).consistent

omit [DecidableEq ι] in
theorem Takes.mem {t : Transition (Config ι) (Event ι)} {i : ι} {stage : Stage ι}
    {next : Option (Stage ι)} (h : Takes t i stage next) : ⟨i, stage⟩ ∈ t.source.frames := by
  obtain ⟨before, below, after, hsource, -⟩ := h
  rw [Config.frames, hsource]
  simp

omit [DecidableEq ι] in
/-- A step is in order when every election that could assign `current_leader_` is the
leader, and every one that could record knows the generation and follows itself. -/
theorem inOrder_of_frames {t : Transition (Config ι) (Event ι)}
    (hnaming : ∀ f ∈ t.source.frames, f.stage = .naming →
      (t.source.state f.self).isLeader = true)
    (hrecording : ∀ f ∈ t.source.frames, ∀ generation, f.stage = .recording generation →
      (t.source.state f.self).currentLeader = C.nodeId f.self ∧
        (t.source.state f.self).generation = generation) : InOrder C t where
  naming i htakes := hnaming ⟨i, .naming⟩ htakes.mem rfl
  recording i generation htakes _ :=
    hrecording ⟨i, .recording generation⟩ htakes.mem generation rfl

/-- A coordinator elects itself while nothing is announced to it. -/
theorem leader_view_consistent_lone :
    ∃ trace c, Run (Step loneCoordinator fun _ _ => False)
        { (initial : Config Unit) with announcements := [] } trace c ∧
      (c.state ()).isLeader = true ∧ Consistent (loneCoordinator.nodeId ()) (c.state ()) := by
  let c₀ : Config Unit := { (initial : Config Unit) with threads := [[⟨(), .asking []⟩]] }
  have hstart : Step loneCoordinator (fun _ _ => False)
      { (initial : Config Unit) with announcements := [] } .other c₀ := .start () rfl
  obtain ⟨c₁, hstep₁, hthread₁, hstate₁, -, -⟩ :=
    @step_first _ _ loneCoordinator (fun _ _ => False) c₀ _ _ _ _ _ _ rfl nofun rfl
  obtain ⟨c₂, hstep₂, hthread₂, hstate₂, -, -⟩ :=
    @step_first _ _ loneCoordinator (fun _ _ => False) _ _ _ _ _ _ _ hthread₁ nofun rfl
  obtain ⟨c₃, hstep₃, hthread₃, hstate₃, -, -⟩ :=
    @step_first _ _ loneCoordinator (fun _ _ => False) _ _ _ _ _ _ _ hthread₂ nofun rfl
  obtain ⟨c₄, hstep₄, hthread₄, hstate₄, -, -⟩ :=
    @step_first _ _ loneCoordinator (fun _ _ => False) _ _ _ _ _ _ _ hthread₃
      (fun _ => hthread₃ ▸ Unlocked.cons nofun rfl) rfl
  obtain ⟨c₅, hstep₅, hthread₅, hstate₅, -, -⟩ :=
    @step_first _ _ loneCoordinator (fun _ _ => False) _ _ _ _ _ _ _ hthread₄ nofun rfl
  obtain ⟨c₆, hstep₆, hthread₆, hstate₆, -, -⟩ :=
    @step_first _ _ loneCoordinator (fun _ _ => False) _ _ _ _ _ _ _ hthread₅ nofun rfl
  have hthread₆' : c₆.threads = [] ++ [⟨(), .announcing []⟩] :: [] := hthread₆
  have hreturn : Step loneCoordinator (fun _ _ => False) c₆ _ _ := .advance hthread₆' nofun rfl
  have hrun := Run.head hstart (.head hstep₁ (.head hstep₂ (.head hstep₃ (.head hstep₄
    (.head hstep₅ (.head hstep₆ (.single hreturn)))))))
  refine ⟨_, _, hrun, ?_, leader_view_consistent (by decide) hrun ?_ () ?_⟩
  · simp [hstate₆, hstate₅, hstate₄, hstate₃, hstate₂]
  · simp only [List.forall_mem_cons]
    refine ⟨?_, ?_, ?_, ?_, ?_, ?_, ?_, ?_, nofun⟩
    all_goals refine inOrder_of_frames ?_ ?_
    all_goals
      simp [Config.frames, initial, c₀, hthread₁, hthread₂, hthread₃, hthread₄, hthread₅, hthread₆,
        hstate₁, hstate₂, hstate₃, hstate₄, hstate₅]
  · simp [Config.frames]

/-- An announcement arrives after the election of the coordinator has assigned
`is_leader_`, and returns before it assigns `current_leader_`.  The coordinator then
follows itself without being the leader. -/
theorem announcement_overtakes_election :
    ∃ trace c, Run (Step loneCoordinator fun _ _ => False)
        { (initial : Config Unit) with
          announcements := [((), { leaderId := str "b", generation := 5 })] } trace c ∧
      (∀ f ∈ c.frames, f.self ≠ ()) ∧ (c.state ()).isLeader = false ∧
      (c.state ()).currentLeader = loneCoordinator.nodeId () ∧
      ¬Consistent (loneCoordinator.nodeId ()) (c.state ()) := by
  let start : Config Unit :=
    { (initial : Config Unit) with
      announcements := [((), { leaderId := str "b", generation := 5 })] }
  let c₀ : Config Unit := { start with threads := [[⟨(), .asking []⟩]] }
  have hstart : Step loneCoordinator (fun _ _ => False) start .other c₀ := .start () rfl
  obtain ⟨c₁, hstep₁, hthread₁, hstate₁, -, hmessages₁⟩ :=
    @step_first _ _ loneCoordinator (fun _ _ => False) c₀ _ _ _ _ _ _ rfl (by intro h; cases h) rfl
  obtain ⟨c₂, hstep₂, hthread₂, hstate₂, -, hmessages₂⟩ :=
    @step_first _ _ loneCoordinator (fun _ _ => False) _ _ _ _ _ _ _ hthread₁
      (by intro h; cases h) rfl
  -- `is_leader_` is assigned, and now the announcement is carried out
  have hmessage : ((), { leaderId := str "b", generation := 5 }) ∈ c₂.announcements := by
    rw [hmessages₂, hmessages₁]
    exact List.mem_cons_self
  obtain ⟨c₃, handler, c₄, hannounce, hhandler, -, hstate₄, hthread₄⟩ :=
    @run_follows _ _ loneCoordinator (fun _ _ => False) _ _ _ hmessage
      (hthread₂ ▸ Unlocked.cons (fun thread hthread => by cases hthread) rfl)
  -- the election goes on with `generation_` and `current_leader_`
  have hthread₄' : c₄.threads = [[]] ++ [⟨(), .counting⟩] :: [] := by rw [hthread₄, hthread₂]; rfl
  obtain ⟨c₅, hstep₅, hthread₅, hstate₅, -, -⟩ :=
    @step_thread _ _ loneCoordinator (fun _ _ => False) _ _ _ _ _ _ _ _ _ hthread₄'
      (by intro h; cases h) rfl
  obtain ⟨c₆, hstep₆, hthread₆, hstate₆, -, -⟩ :=
    @step_thread _ _ loneCoordinator (fun _ _ => False) _ _ _ _ _ _ _ _ _ hthread₅
      (fun _ => by simp [hthread₅, Unlocked, Stage.locked]) rfl
  obtain ⟨c₇, hstep₇, hthread₇, hstate₇, -, -⟩ :=
    @step_thread _ _ loneCoordinator (fun _ _ => False) _ _ _ _ _ _ _ _ _ hthread₆
      (by intro h; cases h) rfl
  obtain ⟨c₈, hstep₈, hthread₈, hstate₈, -, -⟩ :=
    @step_thread _ _ loneCoordinator (fun _ _ => False) _ _ _ _ _ _ _ _ _ hthread₇
      (by intro h; cases h) rfl
  have hreturn : Step loneCoordinator (fun _ _ => False) c₈ _ _ :=
    .advance hthread₈ (by intro h; cases h) rfl
  have hrun := Run.head hstart (.head hstep₁ (.head hstep₂ (.head hannounce (hhandler.trans
    (.head hstep₅ (.head hstep₆ (.head hstep₇ (.head hstep₈ (.single hreturn)))))))))
  have hleader : (c₈.state ()).isLeader = false := by
    simp only [hstate₈, hstate₇, hstate₆, hstate₅, hstate₄, Function.update_self]
    show decide (str "b" = str "a") = false
    decide
  have hcurrent : (c₈.state ()).currentLeader = loneCoordinator.nodeId () := by
    simp only [hstate₈, hstate₇, hstate₆, Function.update_self]
  refine ⟨_, _, hrun, ?_, ?_, ?_, fun hview => ?_⟩
  · simp [Config.frames]
  · simpa only [Function.update_self] using hleader
  · simpa only [Function.update_self] using hcurrent
  · simp only [Function.update_self] at hview
    rw [hview.isLeader.mpr hcurrent] at hleader
    cases hleader

end StorageEngine.Coordinator
