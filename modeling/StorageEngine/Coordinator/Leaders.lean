import StorageEngine.Coordinator.BullySafety

/-!
# Two leaders

A coordinator that cannot reach a peer is elected all the same, and counts its own
generations.  So a partition has two leaders of one generation.  Between
coordinators that reach each other there is only one leader.
-/

namespace StorageEngine.Coordinator

open Lib

variable {ι : Type} [DecidableEq ι] {C : Coordinators ι} {lossy : ι → ι → Prop}

/-- In every run two coordinators that list each other, and whose `RequestElection` calls
to each other do not fail, are not both leaders. -/
theorem leaders_exclusive (hids : Function.Injective C.nodeId) {i j : ι}
    (hij : j ∈ C.peers i) (hji : i ∈ C.peers j) (hreliable : ¬lossy i j)
    (hreliable' : ¬lossy j i) {trace : List (Transition (Config ι) (Event ι))} {c : Config ι}
    (hrun : Run (Step C lossy) initial trace c) :
    ¬((c.state i).isLeader = true ∧ (c.state j).isLeader = true) := by
  rintro ⟨hi, hj⟩
  have hlt := (electable_of_leader hids hrun hi j hij).resolve_left hreliable
  have hlt' := (electable_of_leader hids hrun hj i hji).resolve_left hreliable'
  rw [UInt64.lt_iff_toNat_lt] at hlt hlt'
  omega

/-- The lower one of two coordinators is elected, and the other one is no leader. -/
theorem leaders_exclusive_two :
    ∃ trace c, Run (Step twoCoordinators fun _ _ => False) initial trace c ∧
      (c.state false).isLeader = true ∧
      ¬((c.state false).isLeader = true ∧ (c.state true).isLeader = true) := by
  obtain ⟨trace, c, hrun, hleader, -⟩ :=
    @run_elected _ _ twoCoordinators (fun _ _ => False) (by decide) false (by decide)
  exact ⟨trace, c, hrun, hleader, leaders_exclusive (by decide) (by decide) (by decide) id id hrun⟩

/-- An election whose only call fails. -/
theorem run_isolated {i k : ι} (hlossy : lossy i k) {c : Config ι}
    {others : List (List (Frame ι))} (hthread : c.threads = [⟨i, .asking [k]⟩] :: others)
    (hmutex : Unlocked others i) :
    ∃ trace c', Run (Step C lossy) c trace c' ∧
      c'.threads = [⟨i, .announcing (C.peers i)⟩] :: others ∧
      c'.state = Function.update c.state i (elected C i (c.state i)) ∧
      c'.requests = (k, electionRequest C i) :: c.requests ∧
      c'.announcements = c.announcements := by
  have hlose : Step C lossy c .other _ :=
    @Step.lose _ _ C lossy _ [] others [] i k [] hlossy hthread
  obtain ⟨trace, c', hrun, hclaimed⟩ := @run_claims _ _ C lossy i
    { c with
      threads := [⟨i, .asking []⟩] :: others
      requests := (k, electionRequest C i) :: c.requests } others rfl hmutex
  exact ⟨_, c', .head hlose hrun, hclaimed⟩

/-- The election loop of a coordinator that cannot reach its peer. -/
theorem run_partitioned {i k : ι} (hpeers : C.peers i = [k]) (hlossy : lossy i k)
    {c : Config ι} (hfollower : (c.state i).isLeader = false) (hmutex : Unlocked c.threads i) :
    ∃ trace c', Run (Step C lossy) c trace c' ∧
      c'.threads = [⟨i, .announcing [k]⟩] :: c.threads ∧
      c'.state = Function.update c.state i (elected C i (c.state i)) ∧
      c'.requests = (k, electionRequest C i) :: c.requests ∧
      c'.announcements = c.announcements := by
  have hstart : Step C lossy c .other _ := .start i hfollower
  obtain ⟨trace, c', hrun, hthread, hclaimed⟩ := @run_isolated _ _ C lossy i k hlossy
    { c with threads := [⟨i, .asking (C.peers i)⟩] :: c.threads } c.threads (by rw [hpeers])
    hmutex
  rw [hpeers] at hthread
  exact ⟨_, c', .head hstart hrun, hthread, hclaimed⟩

/-- In a partition both of two coordinators are leaders of generation one. -/
theorem partition_has_two_leaders :
    Function.Injective twoCoordinators.nodeId ∧
      ∃ trace c, Run (Step twoCoordinators fun _ _ => True) initial trace c ∧
        (c.state false).isLeader = true ∧ (c.state true).isLeader = true ∧
        (c.state false).generation = (c.state true).generation := by
  obtain ⟨first, c₁, hfirst, hthread₁, hstate₁, -, -⟩ :=
    @run_partitioned _ _ twoCoordinators (fun _ _ => True) false true rfl trivial initial rfl nofun
  obtain ⟨last, c₂, hlast, -, hstate₂, -, -⟩ :=
    @run_partitioned _ _ twoCoordinators (fun _ _ => True) true false rfl trivial c₁
      (by rw [hstate₁]; rfl) (hthread₁ ▸ Unlocked.cons nofun rfl)
  refine ⟨by decide, _, c₂, hfirst.trans hlast, ?_, ?_, ?_⟩
  all_goals
    rw [hstate₂, hstate₁]
    rfl

end StorageEngine.Coordinator
