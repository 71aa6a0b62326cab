import StorageEngine.Lib.BackgroundThread

/-!
# The threads in the background

The `start` and `stop` of `src/coordinator/coordinator_service.cpp`,
`src/recovery/recovery_manager.cpp` and `src/heartbeat/heartbeat_manager.cpp`, and the life of the
coordinator in `src/metadata/metadata_node_main.cpp`.

* **A round** is one turn of the loop of the thread: an election if there is no leader here, a
  repair pass, or a heartbeat.
* **The destructor** of `HeartbeatManager` calls `stop`.  The other two classes have none, so a
  thread that has not been stopped aborts the program.
-/

namespace StorageEngine

open Lib.BackgroundThread

/-- `election_thread_`.  It sleeps before its first election, and no sleep looks at `running_`. -/
def Coordinator.electionThread : Kind where
  first := .pause 2
  polls := false
  claims := false
  begins := by decide

/-- `recovery_thread_` -/
def RecoveryManager.recoveryThread : Kind where
  first := .test
  polls := true
  claims := false
  begins := by decide

/-- `heartbeat_thread_` -/
def HeartbeatManager.heartbeatThread : Kind where
  first := .test
  polls := true
  claims := true
  begins := by decide

/-- The classes with a thread. -/
inductive ThreadOwner where
  | coordinator
  | recovery
  | heartbeat
  deriving DecidableEq, Repr

namespace ThreadOwner

def kind : ThreadOwner → Kind
  | .coordinator => Coordinator.electionThread
  | .recovery => RecoveryManager.recoveryThread
  | .heartbeat => HeartbeatManager.heartbeatThread

/-- The calls of the destructor. -/
def destructor : ThreadOwner → List Op
  | .heartbeat => [.stop]
  | _ => []

end ThreadOwner

/-- The calls that `main` makes to its coordinator before it returns.  A server that is not built
makes it return at once. -/
def Coordinator.mainCalls (serverBuilt : Bool) : List Op :=
  if serverBuilt then [.start, .stop] else [.start]

/-- In a run in which no `start` overlaps a `stop`, and `stop`s overlap for a heartbeat manager
only, the program is not aborted.  With no call in progress there is a thread if and only if the
last call was a `start`, and an object that is then destroyed aborts the program unless it is a
heartbeat manager: so does `main` if and only if its server is not built.  A `stop` that waits
has cleared the flag, and its thread can go on until it ends, in finitely many steps. -/
theorem background_threads (owner : ThreadOwner) {s : State}
    (h : Reachable owner.kind (Orderly owner.kind) s) :
    s.object.aborted = false ∧
    (s.calls = [] → (s.object.thread ≠ none ↔ s.begun.head? = some .start)) ∧
    (∀ calls, s.calls = [] → s.begun.reverse = calls ++ owner.destructor →
      (s.object.destroy.aborted = true ↔
        owner ≠ .heartbeat ∧ calls.getLast? = some .start)) ∧
    (∀ serverBuilt, owner = .coordinator → s.calls = [] →
      s.begun.reverse = Coordinator.mainCalls serverBuilt →
        (s.object.destroy.aborted = true ↔ serverBuilt = false)) ∧
    (.waiting ∈ s.calls → ∃ p, s.object.thread = some p ∧
      (p ≠ .ended → ∃ p', Next owner.kind s.object.flag p p') ∧
      Acc (fun p' p => Next owner.kind s.object.flag p p') p) := by
  have hsound := h.sound
  refine ⟨hsound.running, fun hcalls => ?_, fun calls hcalls hbegun => ?_,
    fun serverBuilt _ hcalls hbegun => ?_, fun hwaits => ?_⟩
  · obtain ⟨hflag, hthread⟩ := hsound.idle hcalls
    rw [← hflag, Ne, hthread, Bool.not_eq_false]
  · rw [hsound.destroy hcalls, ← List.getLast?_reverse, hbegun]
    cases owner <;> simp [ThreadOwner.destructor]
  · rw [hsound.destroy hcalls, ← List.getLast?_reverse, hbegun]
    cases serverBuilt <;> simp [Coordinator.mainCalls]
  · obtain ⟨hflag, hsome⟩ := hsound.waits hwaits
    obtain ⟨p, hp⟩ := Option.ne_none_iff_exists'.mp hsome
    refine ⟨p, hp, fun hp => Next.exists_next hp, ?_⟩
    rw [hflag]
    exact Next.acc p

/-- `main` starts the coordinator, and returns because its server is not built. -/
theorem background_threads_no_server :
    ∃ s, Reachable Coordinator.electionThread (Orderly Coordinator.electionThread) s ∧
      s.object.destroy.aborted = true := by
  let Step' := Step Coordinator.electionThread (Orderly Coordinator.electionThread)
  have hexchange : Step' ⟨{}, [.starting], [.start]⟩ ⟨{ flag := true }, [.spawning], [.start]⟩ :=
    .head (some .spawning) rfl
  have hspawn : Step' ⟨{ flag := true }, [.spawning], [.start]⟩
      ⟨{ flag := true, thread := some (.pause 2) }, [], [.start]⟩ := .head none rfl
  have hrun : Reachable Coordinator.electionThread (Orderly Coordinator.electionThread) _ :=
    ((Relation.ReflTransGen.single (.begin .start (by simp [Orderly]))).tail hexchange).tail
      hspawn
  obtain ⟨-, -, -, hmain, -⟩ := background_threads .coordinator hrun
  exact ⟨_, hrun, (hmain false rfl rfl rfl).mpr rfl⟩

/-- The order is needed: a `start` that overlaps a `stop` can abort the program, and two `stop`s
can do so unless they are those of a heartbeat manager. -/
theorem background_threads_order (owner : ThreadOwner) :
    (∃ s, Reachable owner.kind (fun _ _ => True) s ∧ s.object.aborted = true) ∧
    ((∃ s, Reachable owner.kind SameOp s ∧ s.object.aborted = true) ↔ owner ≠ .heartbeat) := by
  refine ⟨overlap_aborts _, ?_⟩
  cases owner with
  | coordinator => exact iff_of_true (stops_abort rfl) (by simp)
  | recovery => exact iff_of_true (stops_abort rfl) (by simp)
  | heartbeat =>
    refine iff_of_false (fun h => ?_) (by simp)
    obtain ⟨s, hrun, haborted⟩ := h
    have hsound : Sound ThreadOwner.heartbeat.kind s := (hrun.mono (SameOp.orderly rfl)).sound
    rw [hsound.running] at haborted
    cases haborted

end StorageEngine
