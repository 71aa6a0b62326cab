import StorageEngine.Coordinator.Electable

/-!
# The bully algorithm, upside down

In the bully algorithm the coordinator with the highest priority becomes the
leader.  Here a coordinator gives up when a peer answers without `ack`, but a peer
answers so when the candidate has the higher priority.  When every call is
answered, the only coordinator that can be elected is the one with the lowest
priority.

* `concedes` builds the election of a coordinator that has a lower peer.  It runs to
  its end and elects nobody, with the elections that it starts at its higher peers.
* `run_elected` builds the election of the lowest coordinator.
-/

namespace StorageEngine.Coordinator

open Lib

variable {ι : Type} [DecidableEq ι] {C : Coordinators ι} {lossy : ι → ι → Prop}

/-! ## Elections that elect nobody -/

/-- A step of the top frame of a thread. -/
theorem step_top {c : Config ι} {before after : List (List (Frame ι))}
    {below : List (Frame ι)} {i : ι} {stage : Stage ι} {next : Option (Stage ι)}
    (hthread : c.threads = before ++ (⟨i, stage⟩ :: below) :: after) (hstage : stage ≠ .naming)
    (heffect : advance C i (c.state i) stage = some { state := c.state i, next := next }) :
    ∃ e, Step C lossy c e
      { c with threads := before ++ (next.toList.map (⟨i, ·⟩) ++ below) :: after } := by
  have hstep : Step C lossy c _ _ := .advance hthread (absurd · hstage) heffect
  rw [Function.update_eq_self] at hstep
  exact ⟨_, hstep⟩

/-- An election of the coordinator can run to its end without any other change. -/
def Concedes (C : Coordinators ι) (lossy : ι → ι → Prop) (k : ι) : Prop :=
  ∀ (c : Config ι) (before after : List (List (Frame ι))) (below : List (Frame ι)),
    c.threads = before ++ (⟨k, .asking (C.peers k)⟩ :: below) :: after →
      ∃ trace, Run (Step C lossy) c trace { c with threads := before ++ below :: after }

section Runs

variable {c : Config ι} {before after : List (List (Frame ι))} {below : List (Frame ι)}
  {j k : ι} {rest : List ι}

/-- A higher peer that concedes lets the candidate pass. -/
theorem run_passed_peer (hk : Concedes C lossy k) (hlt : priority C j < priority C k)
    (hthread : c.threads = before ++ (⟨j, .asking (k :: rest)⟩ :: below) :: after) :
    ∃ trace, Run (Step C lossy) c trace
      { c with threads := before ++ (⟨j, .asking rest⟩ :: below) :: after } := by
  let resp : ElectionResponse := { ack := true, currentLeader := (c.state k).currentLeader }
  have hserve : requestElection (C.nodeId k) (c.state k) (electionRequest C j) = (resp, true) :=
    if_pos hlt
  have hcall : Step C lossy c .other _ := .call hthread hserve
  obtain ⟨nested, hnested⟩ := hk
    { c with
      threads := before ++ (started C k true ++ ⟨j, .awaiting k rest resp⟩ :: below) :: after }
    before after (⟨j, .awaiting k rest resp⟩ :: below) rfl
  obtain ⟨e, hresume⟩ := @step_top _ _ C lossy
    { c with threads := before ++ (⟨j, .awaiting k rest resp⟩ :: below) :: after } before after
    below j (.awaiting k rest resp) (some (.asking rest)) rfl nofun rfl
  exact ⟨_, .head hcall (hnested.trans (.single hresume))⟩

/-- An election ends at the first peer that does not have a higher priority. -/
theorem run_refused (hrest : ∀ k ∈ rest, priority C j < priority C k → Concedes C lossy k)
    (hrefuse : ∃ k ∈ rest, ¬priority C j < priority C k)
    (hthread : c.threads = before ++ (⟨j, .asking rest⟩ :: below) :: after) :
    ∃ trace, Run (Step C lossy) c trace { c with threads := before ++ below :: after } := by
  induction rest generalizing c with
  | nil =>
    obtain ⟨k, hk, -⟩ := hrefuse
    cases hk
  | cons k rest ih =>
    by_cases hlt : priority C j < priority C k
    · obtain ⟨first, hfirst⟩ :=
        run_passed_peer (hrest k List.mem_cons_self hlt) hlt hthread
      obtain ⟨k', hk', hrefuse⟩ := hrefuse
      have hk'' : k' ∈ rest := by
        rcases List.mem_cons.mp hk' with rfl | hk'
        · exact absurd hlt hrefuse
        · exact hk'
      obtain ⟨last, hlast⟩ := @ih
        { c with threads := before ++ (⟨j, .asking rest⟩ :: below) :: after }
        (fun k hk => hrest k (List.mem_cons_of_mem _ hk)) ⟨k', hk'', hrefuse⟩ rfl
      exact ⟨_, hfirst.trans hlast⟩
    · let resp : ElectionResponse :=
        { ack := false, currentLeader := (c.state k).currentLeader }
      have hserve : requestElection (C.nodeId k) (c.state k) (electionRequest C j) =
          (resp, false) := if_neg hlt
      have hcall : Step C lossy c .other _ := .call hthread hserve
      obtain ⟨e, hreturn⟩ := @step_top _ _ C lossy
        { c with threads := before ++ (⟨j, .awaiting k rest resp⟩ :: below) :: after } before
        after below j (.awaiting k rest resp) none rfl nofun rfl
      exact ⟨_, .head hcall (.single hreturn)⟩

/-- A candidate passes higher peers that concede. -/
theorem run_passed (hrest : ∀ k ∈ rest, priority C j < priority C k ∧ Concedes C lossy k)
    (hthread : c.threads = before ++ (⟨j, .asking rest⟩ :: below) :: after) :
    ∃ trace, Run (Step C lossy) c trace
      { c with threads := before ++ (⟨j, .asking []⟩ :: below) :: after } := by
  induction rest generalizing c with
  | nil =>
    rw [← hthread]
    exact ⟨[], .refl c⟩
  | cons k rest ih =>
    obtain ⟨hlt, hk⟩ := hrest k List.mem_cons_self
    obtain ⟨first, hfirst⟩ := run_passed_peer hk hlt hthread
    obtain ⟨last, hlast⟩ := @ih
      { c with threads := before ++ (⟨j, .asking rest⟩ :: below) :: after }
      (fun k hk => hrest k (List.mem_cons_of_mem _ hk)) rfl
    exact ⟨_, hfirst.trans hlast⟩

end Runs

/-- A coordinator with a peer that is not higher concedes.  The elections that it starts
are at higher priorities, where the induction is. -/
theorem concedes (hpeers : ∀ j k, k ∈ C.peers j → j ∈ C.peers k) (j : ι)
    (hrefuse : ∃ k ∈ C.peers j, ¬priority C j < priority C k) : Concedes C lossy j := by
  induction hn : 2 ^ 64 - (priority C j).toNat using Nat.strong_induction_on generalizing j with
  | _ n ih =>
    intro c before after below hthread
    refine run_refused (fun k hk hlt => ?_) hrefuse hthread
    have hhigher := UInt64.lt_iff_toNat_lt.mp hlt
    have hbound := UInt64.toNat_lt (priority C k)
    refine ih (2 ^ 64 - (priority C k).toNat) (by omega) k ⟨j, hpeers j k hk, fun hback => ?_⟩ rfl
    have hlower := UInt64.lt_iff_toNat_lt.mp hback
    omega

/-! ## The election of the lowest coordinator -/

/-- A step of a thread to its next stage. -/
theorem step_thread {c : Config ι} {i : ι} {stage next : Stage ι} {s : CoordinatorState}
    {sent : Option (ι × LeaderAnnounceRequest)} {before after : List (List (Frame ι))}
    {below : List (Frame ι)} (hthread : c.threads = before ++ (⟨i, stage⟩ :: below) :: after)
    (hmutex : stage = .naming → Unlocked c.threads i)
    (heffect : advance C i (c.state i) stage =
      some { state := s, next := some next, sent := sent }) :
    ∃ c', Step C lossy c (eventOf i stage (some next)) c' ∧
      c'.threads = before ++ (⟨i, next⟩ :: below) :: after ∧
      c'.state = Function.update c.state i s ∧ c'.requests = c.requests ∧
      c'.announcements = sent.toList ++ c.announcements :=
  ⟨_, .advance hthread hmutex heffect, rfl, rfl, rfl, rfl⟩

/-- A step of the first thread, when no other election waits for it. -/
theorem step_first {c : Config ι} {i : ι} {stage next : Stage ι} {s : CoordinatorState}
    {sent : Option (ι × LeaderAnnounceRequest)} {others : List (List (Frame ι))}
    (hthread : c.threads = [⟨i, stage⟩] :: others)
    (hmutex : stage = .naming → Unlocked c.threads i)
    (heffect : advance C i (c.state i) stage =
      some { state := s, next := some next, sent := sent }) :
    ∃ c', Step C lossy c (eventOf i stage (some next)) c' ∧ c'.threads = [⟨i, next⟩] :: others ∧
      c'.state = Function.update c.state i s ∧ c'.requests = c.requests ∧
      c'.announcements = sent.toList ++ c.announcements := by
  have hthread' : c.threads = [] ++ [⟨i, stage⟩] :: others := hthread
  exact step_thread hthread' hmutex heffect

omit [DecidableEq ι] in
/-- A frame that does not hold the mutex. -/
theorem Unlocked.push {before after : List (List (Frame ι))} {below : List (Frame ι)} {i : ι}
    {f : Frame ι} (h : Unlocked (before ++ below :: after) i) (hf : f.stage.locked = false) :
    Unlocked (before ++ (f :: below) :: after) i := by
  intro thread hthread g hg hself
  rcases List.mem_append.mp hthread with hthread | hthread
  · exact h thread (List.mem_append_left _ hthread) g hg hself
  · rcases List.mem_cons.mp hthread with rfl | hthread
    · rcases List.mem_cons.mp hg with rfl | hg
      · exact hf
      · exact h below (by simp) g hg hself
    · exact h thread (by simp [hthread]) g hg hself

omit [DecidableEq ι] in
/-- A thread whose only frame does not hold the mutex. -/
theorem Unlocked.cons {threads : List (List (Frame ι))} {i : ι} {f : Frame ι}
    (h : Unlocked threads i) (hf : f.stage.locked = false) : Unlocked ([f] :: threads) i := by
  have hidle : Unlocked ([] ++ [] :: threads) i := by simpa [Unlocked] using h
  exact hidle.push hf

/-- The state of a coordinator that has just elected itself. -/
def elected (C : Coordinators ι) (i : ι) (s : CoordinatorState) : CoordinatorState where
  isLeader := true
  generation := s.generation + 1
  currentLeader := C.nodeId i
  store := s.store.setLeader (C.nodeId i) (s.generation + 1)

/-- An election from the end of its calls to its announcements. -/
theorem run_claims_below {i : ι} {c : Config ι} {before after : List (List (Frame ι))}
    {below : List (Frame ι)} (hthread : c.threads = before ++ (⟨i, .asking []⟩ :: below) :: after)
    (hmutex : Unlocked (before ++ below :: after) i) :
    ∃ trace c', Run (Step C lossy) c trace c' ∧
      c'.threads = before ++ (⟨i, .announcing (C.peers i)⟩ :: below) :: after ∧
      c'.state = Function.update c.state i (elected C i (c.state i)) ∧
      c'.requests = c.requests ∧ c'.announcements = c.announcements := by
  obtain ⟨c₁, hstep₁, hthread₁, hstate₁, hrequests₁, hmessages₁⟩ :=
    @step_thread _ _ C lossy _ _ _ _ _ _ _ _ _ hthread nofun rfl
  obtain ⟨c₂, hstep₂, hthread₂, hstate₂, hrequests₂, hmessages₂⟩ :=
    @step_thread _ _ C lossy _ _ _ _ _ _ _ _ _ hthread₁ nofun rfl
  obtain ⟨c₃, hstep₃, hthread₃, hstate₃, hrequests₃, hmessages₃⟩ :=
    @step_thread _ _ C lossy _ _ _ _ _ _ _ _ _ hthread₂ nofun rfl
  obtain ⟨c₄, hstep₄, hthread₄, hstate₄, hrequests₄, hmessages₄⟩ :=
    @step_thread _ _ C lossy _ _ _ _ _ _ _ _ _ hthread₃
      (fun _ => hthread₃ ▸ hmutex.push rfl) rfl
  obtain ⟨c₅, hstep₅, hthread₅, hstate₅, hrequests₅, hmessages₅⟩ :=
    @step_thread _ _ C lossy _ _ _ _ _ _ _ _ _ hthread₄ nofun rfl
  obtain ⟨c₆, hstep₆, hthread₆, hstate₆, hrequests₆, hmessages₆⟩ :=
    @step_thread _ _ C lossy _ _ _ _ _ _ _ _ _ hthread₅ nofun rfl
  refine ⟨_, c₆, .head hstep₁ (.head hstep₂ (.head hstep₃ (.head hstep₄ (.head hstep₅
    (.single hstep₆))))), hthread₆, ?_, ?_, ?_⟩
  · rw [hstate₆, hstate₅, hstate₄, hstate₃, hstate₂, hstate₁]
    simp only [Function.update_self, Function.update_idem, elected]
  · rw [hrequests₆, hrequests₅, hrequests₄, hrequests₃, hrequests₂, hrequests₁]
  · rw [hmessages₆, hmessages₅, hmessages₄, hmessages₃, hmessages₂, hmessages₁]
    rfl

/-- The same for the first thread, when no other election waits for it. -/
theorem run_claims {i : ι} {c : Config ι} {others : List (List (Frame ι))}
    (hthread : c.threads = [⟨i, .asking []⟩] :: others) (hmutex : Unlocked others i) :
    ∃ trace c', Run (Step C lossy) c trace c' ∧
      c'.threads = [⟨i, .announcing (C.peers i)⟩] :: others ∧
      c'.state = Function.update c.state i (elected C i (c.state i)) ∧
      c'.requests = c.requests ∧ c'.announcements = c.announcements := by
  have hthread' : c.threads = [] ++ [⟨i, .asking []⟩] :: others := hthread
  have hidle : Unlocked ([] ++ [] :: others) i := by simpa [Unlocked] using hmutex
  exact run_claims_below hthread' hidle

/-- The run ends an election of a coordinator that is the leader then. -/
def ElectsIn (i : ι) (trace : List (Transition (Config ι) (Event ι))) : Prop :=
  ∃ t ∈ trace, t.label = .completed i ∧ (t.target.state i).isLeader = true

omit [DecidableEq ι] in
theorem ElectsIn.append {i : ι} {first last : List (Transition (Config ι) (Event ι))}
    (h : ElectsIn i last) : ElectsIn i (first ++ last) := by
  obtain ⟨t, ht, hlabel⟩ := h
  exact ⟨t, List.mem_append_right _ ht, hlabel⟩

/-- The announcements of a leader. -/
theorem run_announces {i : ι} {rest : List ι} {c : Config ι} {others : List (List (Frame ι))}
    (hthread : c.threads = [⟨i, .announcing rest⟩] :: others)
    (hleader : (c.state i).isLeader = true) :
    ∃ trace c', Run (Step C lossy) c trace c' ∧ (c'.state i).isLeader = true ∧
      ElectsIn i trace := by
  induction rest generalizing c with
  | nil =>
    have hthread' : c.threads = [] ++ [⟨i, .announcing []⟩] :: others := hthread
    have hstep : Step C lossy c (.completed i) _ := .advance hthread' nofun rfl
    refine ⟨_, _, .single hstep, ?_, _, List.mem_singleton_self _, rfl, ?_⟩ <;>
      simpa only [Function.update_self] using hleader
  | cons peer rest ih =>
    obtain ⟨c₁, hstep, hthread₁, hstate, -, -⟩ :=
      @step_first _ _ C lossy _ _ _ _ _ _ _ hthread nofun rfl
    obtain ⟨trace, c', hrun, hleader', helects⟩ := ih hthread₁
      (by rw [hstate, Function.update_self]; exact hleader)
    exact ⟨_, c', .head hstep hrun, hleader', @ElectsIn.append _ i [_] _ helects⟩

/-- The coordinator with the lowest priority can be elected. -/
theorem run_elected (hpeers : ∀ j k, k ∈ C.peers j → j ∈ C.peers k) {i : ι}
    (hlowest : ∀ k ∈ C.peers i, priority C i < priority C k) :
    ∃ trace c, Run (Step C lossy) initial trace c ∧ (c.state i).isLeader = true ∧
      ElectsIn i trace := by
  have hstart : Step C lossy initial .other _ := .start i rfl
  have hrest : ∀ k ∈ C.peers i, priority C i < priority C k ∧ Concedes C lossy k := by
    refine fun k hk => ⟨hlowest k hk, concedes hpeers k ⟨i, hpeers i k hk, fun hback => ?_⟩⟩
    have hhigher := UInt64.lt_iff_toNat_lt.mp (hlowest k hk)
    have hlower := UInt64.lt_iff_toNat_lt.mp hback
    omega
  obtain ⟨calls, hcalls⟩ := @run_passed _ _ C lossy
    { (initial : Config ι) with threads := [[⟨i, .asking (C.peers i)⟩]] } [] [] [] i (C.peers i)
    hrest rfl
  obtain ⟨claims, c₁, hclaims, hthread, hstate, -, -⟩ := @run_claims _ _ C lossy i
    { (initial : Config ι) with threads := [[⟨i, .asking []⟩]] } [] rfl nofun
  obtain ⟨trace, c, hrun, hleader, helects⟩ := @run_announces _ _ C lossy _ _ _ _ hthread
    (by rw [hstate, Function.update_self]; rfl)
  exact ⟨_, c, .head hstart (hcalls.trans (hclaims.trans hrun)), hleader,
    @ElectsIn.append _ i [_] _ helects.append.append⟩

/-! ## Bully safety -/

/-- In every run in which no `RequestElection` call fails, a coordinator that ends an
election as the leader has a higher priority than each of its peers: this holds for a
coordinator if and only if it has no peers or a peer with a lower priority. -/
theorem bully_safe_iff (hpriority : Function.Injective (priority C))
    (hpeers : ∀ i j, j ∈ C.peers i ↔ j ≠ i) (i : ι) :
    (∀ trace c, Run (Step C fun _ _ => False) initial trace c → ∀ t ∈ trace,
      t.label = .completed i → (t.target.state i).isLeader = true →
        ∀ j ∈ C.peers i, priority C j < priority C i) ↔
      C.peers i = [] ∨ ∃ j ∈ C.peers i, priority C j < priority C i := by
  have hids : Function.Injective C.nodeId := fun a b hab => hpriority (congrArg nodePriority hab)
  constructor
  · intro h
    by_contra hlowest
    rw [not_or, not_exists] at hlowest
    obtain ⟨hsome, hlowest⟩ := hlowest
    have hhigher : ∀ k ∈ C.peers i, priority C i < priority C k := by
      intro k hk
      have hne : (priority C i).toNat ≠ (priority C k).toNat := fun heq =>
        (hpeers i k).mp hk (hpriority (UInt64.toNat_inj.mp heq)).symm
      have hnot := mt (fun hlt => ⟨hk, hlt⟩) (hlowest k)
      rw [UInt64.lt_iff_toNat_lt] at hnot ⊢
      omega
    obtain ⟨trace, c, hrun, -, t, ht, hlabel, hleader⟩ := @run_elected _ _ C (fun _ _ => False)
      (fun j k hk => (hpeers k j).mpr (Ne.symm ((hpeers j k).mp hk))) i hhigher
    obtain ⟨k, hk⟩ := List.exists_mem_of_ne_nil _ hsome
    have hup := UInt64.lt_iff_toNat_lt.mp (hhigher k hk)
    have hdown := UInt64.lt_iff_toNat_lt.mp (h trace c hrun t ht hlabel hleader k hk)
    omega
  · rintro (hnone | ⟨j, hj, hlower⟩) trace c hrun t ht hlabel hleader
    · simp [hnone]
    · -- a coordinator with a lower peer is never the leader
      obtain ⟨hinv, hstep⟩ := hrun.invariant_source
        (fun _ _ _ hstep h => ElectionInv.step hids hstep h) electionInv_initial t ht
      have helectable := (hinv.step hids hstep).leaders i hleader
      rcases helectable j hj with hlost | hhigher
      · exact hlost.elim
      · have hup := UInt64.lt_iff_toNat_lt.mp hhigher
        have hdown := UInt64.lt_iff_toNat_lt.mp hlower
        omega

/-- Two coordinators that know each other. -/
def twoCoordinators : Coordinators Bool where
  nodeId
    | false => str "a"
    | true => str "b"
  peers i := [!i]

/-- The higher one of two coordinators never ends an election as the leader. -/
theorem bully_safe_higher :
    (∃ j ∈ twoCoordinators.peers true,
      priority twoCoordinators j < priority twoCoordinators true) ∧
    ∀ trace c, Run (Step twoCoordinators fun _ _ => False) initial trace c → ∀ t ∈ trace,
      t.label = .completed true → (t.target.state true).isLeader = true →
        ∀ j ∈ twoCoordinators.peers true,
          priority twoCoordinators j < priority twoCoordinators true := by
  have hlower : ∃ j ∈ twoCoordinators.peers true,
      priority twoCoordinators j < priority twoCoordinators true := ⟨false, by decide, by decide⟩
  exact ⟨hlower, (bully_safe_iff (by decide) (by decide) true).mpr (.inr hlower)⟩

/-- The lower one of two coordinators is elected, although every call is answered. -/
theorem bully_elects_lower :
    ∃ trace c, Run (Step twoCoordinators fun _ _ => False) initial trace c ∧
      ∃ t ∈ trace, t.label = .completed false ∧ (t.target.state false).isLeader = true ∧
        ∃ j ∈ twoCoordinators.peers false,
          ¬priority twoCoordinators j < priority twoCoordinators false := by
  obtain ⟨trace, c, hrun, -, t, ht, hlabel, hleader⟩ :=
    @run_elected _ _ twoCoordinators (fun _ _ => False) (by decide) false (by decide)
  exact ⟨trace, c, hrun, t, ht, hlabel, hleader, true, by decide, by decide⟩

end StorageEngine.Coordinator
