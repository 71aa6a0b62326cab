import StorageEngine.Lib.Transition
import Mathlib.Data.List.Nodup
import Mathlib.Logic.Function.Basic

/-!
# The thread pool

`include/common/thread_pool.hpp` and `src/common/thread_pool.cpp`, for any number of
workers and of threads that submit tasks or shut the pool down.

* **A step** is a section under the mutex, the end of a task, or a step of the
  `shutdown` call that has set `stop_`.
* **A waiting worker** can wake up at any time, with or without a notification.  It
  then has the mutex and evaluates the predicate again.
* **History.**  A task has the number of tasks accepted before it as a ticket.
  `accepted`, `taken` and `done` are the tasks in the order of their `submit`, of
  `tasks_.front()` and of their end.
-/

namespace StorageEngine.ThreadPool

open Lib

/-! ## The pool -/

structure Task (α : Type) where
  ticket : ℕ
  body : α
  deriving DecidableEq, Repr

inductive Worker (α : Type) where
  /-- at the beginning of the loop, or awake in `cv_.wait` -/
  | ready
  | waiting
  | running (task : Task α)
  | returned
  deriving DecidableEq, Repr

/-- The `shutdown` call that has set `stop_`. -/
inductive Shutdown where
  | notCalled
  /-- it has joined the workers before `next` -/
  | joining (next : ℕ)
  | returned
  deriving DecidableEq, Repr

structure Pool (α : Type) (n : ℕ) where
  workers : Fin n → Worker α := fun _ => .ready
  tasks : List (Task α) := []
  stop : Bool := false
  shutdown : Shutdown := .notCalled
  accepted : List (Task α) := []
  taken : List (Task α) := []
  done : List (Task α) := []

variable {α : Type} {n : ℕ}

def Pool.setWorker (p : Pool α n) (i : Fin n) (w : Worker α) : Pool α n :=
  { p with workers := Function.update p.workers i w }

/-- The section of `submit`.  `none` is the exception of a stopped pool. -/
def submit (p : Pool α n) (body : α) : Option (Pool α n) :=
  if p.stop = true then none
  else
    let task : Task α := ⟨p.accepted.length, body⟩
    some { p with tasks := p.tasks ++ [task], accepted := p.accepted ++ [task] }

/-- The section of `shutdown`. -/
def beginShutdown (p : Pool α n) : Pool α n :=
  if p.stop = true then p else { p with stop := true, shutdown := .joining 0 }

/-- The section of `worker_loop`.  The predicate of `cv_.wait` fails when there is no task
and the pool is not stopped. -/
def workerSection (p : Pool α n) (i : Fin n) : Pool α n :=
  match p.tasks with
  | [] => if p.stop = true then p.setWorker i .returned else p.setWorker i .waiting
  | task :: rest =>
    { p.setWorker i (.running task) with tasks := rest, taken := p.taken ++ [task] }

inductive Event (α : Type) (n : ℕ) where
  | accept (body : α)
  | reject (body : α)
  | turn (i : Fin n)
  | wake (i : Fin n)
  | finish (i : Fin n)
  | shutdown
  | join
  | leave
  deriving DecidableEq, Repr

inductive Step : Pool α n → Event α n → Pool α n → Prop where
  | accept {p p' : Pool α n} {body : α} (hsubmit : submit p body = some p') :
      Step p (.accept body) p'
  | reject {p : Pool α n} {body : α} (hsubmit : submit p body = none) :
      Step p (.reject body) p
  | turn {p : Pool α n} {i : Fin n} (hworker : p.workers i = .ready) :
      Step p (.turn i) (workerSection p i)
  | wake {p : Pool α n} {i : Fin n} (hworker : p.workers i = .waiting) :
      Step p (.wake i) (p.setWorker i .ready)
  | finish {p : Pool α n} {i : Fin n} {task : Task α} (hworker : p.workers i = .running task) :
      Step p (.finish i) { p.setWorker i .ready with done := p.done ++ [task] }
  | shutdown (p : Pool α n) : Step p .shutdown (beginShutdown p)
  | join {p : Pool α n} {next : Fin n} (hjoining : p.shutdown = .joining next)
      (hworker : p.workers next = .returned) :
      Step p .join { p with shutdown := .joining (next + 1) }
  | leave {p : Pool α n} (hjoining : p.shutdown = .joining n) :
      Step p .leave { p with shutdown := .returned }

/-! ## The invariant -/

/-- The places of a task. -/
inductive Place (n : ℕ) where
  | queued
  | running (i : Fin n)
  | done
  deriving DecidableEq, Repr

def Pool.At (p : Pool α n) (task : Task α) : Place n → Prop
  | .queued => task ∈ p.tasks
  | .running i => p.workers i = .running task
  | .done => task ∈ p.done

/-- No task is lost, made up or run twice. -/
structure Conserved (p : Pool α n) : Prop where
  order : p.accepted = p.taken ++ p.tasks
  tickets : p.accepted.map Task.ticket = List.range p.accepted.length
  taken : ∀ task, task ∈ p.taken ↔ (∃ i, p.workers i = .running task) ∨ task ∈ p.done
  running : ∀ i task, p.workers i = .running task → task ∉ p.done
  alone : ∀ i j task, p.workers i = .running task → p.workers j = .running task → i = j
  once : p.done.Nodup

/-- A worker leaves a stopped pool without tasks, and is joined after that. -/
structure Stopping (p : Pool α n) : Prop where
  left : ∀ i, p.workers i = .returned → p.stop = true ∧ p.tasks = []
  joined : ∀ next, p.shutdown = .joining next → ∀ i : Fin n, i < next → p.workers i = .returned
  returned : p.shutdown = .returned → ∀ i, p.workers i = .returned

theorem conserved_initial : Conserved ({} : Pool α n) := by
  constructor <;> simp

theorem stopping_initial : Stopping ({} : Pool α n) := by
  constructor <;> simp

section Consequences

variable {p : Pool α n} (h : Conserved p)

include h

theorem Conserved.accepted_nodup : p.accepted.Nodup := by
  refine List.Nodup.of_map Task.ticket ?_
  rw [h.tickets]
  exact List.nodup_range

theorem Conserved.taken_nodup : p.taken.Nodup := by
  have hnodup := h.accepted_nodup
  rw [h.order] at hnodup
  exact (List.nodup_append.mp hnodup).1

/-- A queued task has not been taken. -/
theorem Conserved.not_taken {task : Task α} (htask : task ∈ p.tasks) : task ∉ p.taken := by
  have hnodup := h.accepted_nodup
  rw [h.order] at hnodup
  intro htaken
  exact (List.nodup_append.mp hnodup).2.2 task htaken task htask rfl

/-- Every accepted task is in exactly one place. -/
theorem Conserved.place {task : Task α} (htask : task ∈ p.accepted) :
    ∃! place, p.At task place := by
  rw [h.order, List.mem_append] at htask
  rcases htask with htaken | hqueued
  · have hqueued : task ∉ p.tasks := fun hqueued => h.not_taken hqueued htaken
    rcases (h.taken task).mp htaken with ⟨i, hi⟩ | hdone
    · refine ⟨.running i, hi, fun place hplace => ?_⟩
      cases place with
      | queued => exact absurd hplace hqueued
      | running j => rw [h.alone j i task hplace hi]
      | done => exact absurd hplace (h.running i task hi)
    · refine ⟨.done, hdone, fun place hplace => ?_⟩
      cases place with
      | queued => exact absurd hplace hqueued
      | running j => exact absurd hdone (h.running j task hplace)
      | done => rfl
  · have hnot := h.not_taken hqueued
    rw [h.taken, not_or] at hnot
    refine ⟨.queued, hqueued, fun place hplace => ?_⟩
    cases place with
    | queued => rfl
    | running j => exact absurd ⟨j, hplace⟩ hnot.1
    | done => exact absurd hplace hnot.2

/-- Nothing but accepted tasks is in any place. -/
theorem Conserved.accepted_of_at {task : Task α} {place : Place n} (hplace : p.At task place) :
    task ∈ p.accepted := by
  rw [h.order, List.mem_append, h.taken]
  cases place with
  | queued => exact .inr hplace
  | running i => exact .inl (.inl ⟨i, hplace⟩)
  | done => exact .inl (.inr hplace)

end Consequences

/-! ## The steps -/

section Steps

variable {p : Pool α n}

/-- A worker without a task turns to another stage without one. -/
theorem Conserved.setWorker (h : Conserved p) {i : Fin n} {w : Worker α}
    (hidle : ∀ task, p.workers i ≠ .running task) (hw : ∀ task, w ≠ .running task) :
    Conserved (p.setWorker i w) := by
  have hsame : ∀ j task, (p.setWorker i w).workers j = .running task ↔
      p.workers j = .running task := by
    intro j task
    unfold Pool.setWorker
    by_cases hij : j = i
    · subst hij
      simp [hidle task, hw task]
    · simp [Function.update_of_ne hij]
  constructor
  · exact h.order
  · exact h.tickets
  · intro task
    simp only [hsame]
    exact h.taken task
  · intro j task hj
    exact h.running j task ((hsame j task).mp hj)
  · intro j k task hj hk
    exact h.alone j k task ((hsame j task).mp hj) ((hsame k task).mp hk)
  · exact h.once

theorem Conserved.submit (h : Conserved p) {body : α} {p' : Pool α n}
    (hsubmit : ThreadPool.submit p body = some p') : Conserved p' := by
  rw [ThreadPool.submit] at hsubmit
  split at hsubmit
  · cases hsubmit
  · cases hsubmit
    constructor
    · simp [h.order]
    · simp [List.range_succ, h.tickets]
    · exact h.taken
    · exact h.running
    · exact h.alone
    · exact h.once

theorem Conserved.turn (h : Conserved p) {i : Fin n} (hready : p.workers i = .ready) :
    Conserved (workerSection p i) := by
  have hidle : ∀ task, p.workers i ≠ .running task := by simp [hready]
  unfold workerSection
  split
  · split
    · exact h.setWorker hidle (by simp)
    · exact h.setWorker hidle (by simp)
  · next task rest htasks =>
    -- the front task is in no other place
    have hnew : task ∉ p.taken := h.not_taken (by simp [htasks])
    rw [h.taken, not_or, not_exists] at hnew
    have hworkers : ∀ j task', Function.update p.workers i (.running task) j = .running task' ↔
        (j = i ∧ task' = task) ∨ p.workers j = .running task' := by
      intro j task'
      by_cases hij : j = i
      · subst hij
        simp [hidle task', eq_comm]
      · simp [hij]
    constructor
    · simp [Pool.setWorker, h.order, htasks]
    · exact h.tickets
    · intro task'
      simp only [Pool.setWorker, hworkers, List.mem_append, List.mem_singleton, h.taken]
      constructor
      · rintro ((⟨j, hj⟩ | hdone) | rfl)
        · exact .inl ⟨j, .inr hj⟩
        · exact .inr hdone
        · exact .inl ⟨i, .inl ⟨rfl, rfl⟩⟩
      · rintro (⟨j, ⟨-, rfl⟩ | hj⟩ | hdone)
        · exact .inr rfl
        · exact .inl (.inl ⟨j, hj⟩)
        · exact .inl (.inr hdone)
    · intro j task' hj
      rcases (hworkers j task').mp hj with ⟨-, rfl⟩ | hold
      · exact hnew.2
      · exact h.running j task' hold
    · intro j k task' hj hk
      rcases (hworkers j task').mp hj with ⟨hji, htask⟩ | hold
      · rcases (hworkers k task').mp hk with ⟨hki, -⟩ | hold'
        · exact hji.trans hki.symm
        · exact absurd (htask ▸ hold') (hnew.1 k)
      · rcases (hworkers k task').mp hk with ⟨-, htask⟩ | hold'
        · exact absurd (htask ▸ hold) (hnew.1 j)
        · exact h.alone j k task' hold hold'
    · exact h.once

theorem Conserved.finish (h : Conserved p) {i : Fin n} {task : Task α}
    (hrunning : p.workers i = .running task) :
    Conserved { p.setWorker i .ready with done := p.done ++ [task] } := by
  have hworkers : ∀ j task', Function.update p.workers i .ready j = .running task' ↔
      j ≠ i ∧ p.workers j = .running task' := by
    intro j task'
    by_cases hij : j = i
    · subst hij
      simp
    · simp [hij]
  constructor
  · exact h.order
  · exact h.tickets
  · intro task'
    simp only [Pool.setWorker, hworkers, h.taken, List.mem_append, List.mem_singleton]
    constructor
    · rintro (⟨j, hj⟩ | hdone)
      · by_cases hij : j = i
        · subst hij
          rw [hrunning] at hj
          cases hj
          exact .inr (.inr rfl)
        · exact .inl ⟨j, hij, hj⟩
      · exact .inr (.inl hdone)
    · rintro (⟨j, -, hj⟩ | hdone | rfl)
      · exact .inl ⟨j, hj⟩
      · exact .inr hdone
      · exact .inl ⟨i, hrunning⟩
  · intro j task' hj
    obtain ⟨hij, hold⟩ := (hworkers j task').mp hj
    simp only [List.mem_append, List.mem_singleton, not_or]
    refine ⟨h.running j task' hold, ?_⟩
    intro htask
    exact hij (h.alone j i task' hold (htask ▸ hrunning))
  · intro j k task' hj hk
    exact h.alone j k task' ((hworkers j task').mp hj).2 ((hworkers k task').mp hk).2
  · exact h.once.append (List.nodup_singleton task) (by simpa using h.running i task hrunning)

theorem Conserved.step {p' : Pool α n} {e : Event α n} (hstep : Step p e p') (h : Conserved p) :
    Conserved p' := by
  cases hstep with
  | accept hsubmit => exact h.submit hsubmit
  | reject hsubmit => exact h
  | turn hready => exact h.turn hready
  | wake hwaiting => exact h.setWorker (by simp [hwaiting]) (by simp)
  | finish hrunning => exact h.finish hrunning
  | shutdown =>
    unfold beginShutdown
    split
    · exact h
    · exact ⟨h.order, h.tickets, h.taken, h.running, h.alone, h.once⟩
  | join hjoining hworker => exact ⟨h.order, h.tickets, h.taken, h.running, h.alone, h.once⟩
  | leave hjoining => exact ⟨h.order, h.tickets, h.taken, h.running, h.alone, h.once⟩

theorem Stopping.setWorker (h : Stopping p) {i : Fin n} {w : Worker α}
    (hi : p.workers i ≠ .returned) (hw : w = .returned → p.stop = true ∧ p.tasks = []) :
    Stopping (p.setWorker i w) := by
  -- a worker that has returned stays so
  have hstays : ∀ j, p.workers j = .returned → (p.setWorker i w).workers j = .returned := by
    intro j hj
    have hji : j ≠ i := by
      rintro rfl
      exact hi hj
    exact (Function.update_of_ne hji _ _).trans hj
  constructor
  · intro j hj
    by_cases hji : j = i
    · subst hji
      refine hw ?_
      simpa only [Pool.setWorker, Function.update_self] using hj
    · exact h.left j ((Function.update_of_ne hji _ _).symm.trans hj)
  · intro next hnext j hj
    exact hstays j (h.joined next hnext j hj)
  · intro hreturned j
    exact hstays j (h.returned hreturned j)

theorem Stopping.submit (h : Stopping p) {body : α} {p' : Pool α n}
    (hsubmit : ThreadPool.submit p body = some p') : Stopping p' := by
  rw [ThreadPool.submit] at hsubmit
  split at hsubmit
  · cases hsubmit
  · next hstop =>
    cases hsubmit
    constructor
    · intro i hi
      exact absurd (h.left i hi).1 hstop
    · exact h.joined
    · exact h.returned

theorem Stopping.turn (h : Stopping p) {i : Fin n} (hready : p.workers i = .ready) :
    Stopping (workerSection p i) := by
  have hi : p.workers i ≠ .returned := by simp [hready]
  unfold workerSection
  split
  · next htasks =>
    split
    · next hstop => exact h.setWorker hi fun _ => ⟨hstop, htasks⟩
    · exact h.setWorker hi (by simp)
  · next task rest htasks =>
    have hset : Stopping (p.setWorker i (.running task)) := h.setWorker hi (by simp)
    constructor
    · intro j hj
      have hnone : p.tasks = [] := (hset.left j hj).2
      rw [htasks] at hnone
      cases hnone
    · exact hset.joined
    · exact hset.returned

theorem Stopping.shutdown (h : Stopping p) : Stopping (beginShutdown p) := by
  unfold beginShutdown
  split
  · exact h
  · constructor
    · intro i hi
      exact ⟨rfl, (h.left i hi).2⟩
    · intro next hnext i hi
      cases hnext
      omega
    · intro hreturned
      cases hreturned

theorem Stopping.step {p' : Pool α n} {e : Event α n} (hstep : Step p e p') (h : Stopping p) :
    Stopping p' := by
  cases hstep with
  | accept hsubmit => exact h.submit hsubmit
  | reject hsubmit => exact h
  | turn hready => exact h.turn hready
  | wake hwaiting => exact h.setWorker (by simp [hwaiting]) (by simp)
  | @finish i task hrunning =>
    have hset : Stopping (p.setWorker i .ready) := h.setWorker (by simp [hrunning]) (by simp)
    exact ⟨hset.left, hset.joined, hset.returned⟩
  | shutdown => exact h.shutdown
  | @join next hjoining hworker =>
    constructor
    · exact h.left
    · intro next' hnext i hi
      cases hnext
      by_cases hlast : i = next
      · rw [hlast]
        exact hworker
      · have hne : (i : ℕ) ≠ next := fun heq => hlast (Fin.ext heq)
        exact h.joined next hjoining i (by omega)
    · intro hreturned
      cases hreturned
  | leave hjoining =>
    constructor
    · exact h.left
    · intro next hnext
      cases hnext
    · intro _ i
      exact h.joined n hjoining i i.isLt

end Steps

/-! ## Runs -/

/-- A run of the pool from its construction. -/
abbrev Runs (trace : List (Transition (Pool α n) (Event α n))) (p : Pool α n) : Prop :=
  Run Step {} trace p

/-- No worker has a task when all have returned, so every task taken is done. -/
theorem Conserved.done_of_returned {p : Pool α n} (h : Conserved p) (htasks : p.tasks = [])
    (hworkers : ∀ i, p.workers i = .returned) : p.done.Perm p.accepted := by
  refine (List.perm_ext_iff_of_nodup h.once h.accepted_nodup).mpr fun task => ?_
  rw [h.order, htasks, List.append_nil, h.taken]
  constructor
  · exact .inr
  · rintro (⟨i, hi⟩ | hdone)
    · rw [hworkers i] at hi
      cases hi
    · exact hdone

/-- A stopped pool stays stopped.  Its `submit` throws and enqueues nothing. -/
theorem stopped_stays {p p' : Pool α n} {e : Event α n} (hstep : Step p e p')
    (hstop : p.stop = true) :
    p'.stop = true ∧ ∀ body, e ≠ .accept body ∧ (e = .reject body → p' = p) := by
  cases hstep with
  | accept hsubmit =>
    rw [submit, if_pos hstop] at hsubmit
    cases hsubmit
  | reject => exact ⟨hstop, fun _ => ⟨nofun, fun _ => rfl⟩⟩
  | turn =>
    refine ⟨?_, fun _ => ⟨nofun, nofun⟩⟩
    unfold workerSection
    split
    · rw [if_pos hstop]
      exact hstop
    · exact hstop
  | shutdown =>
    refine ⟨?_, fun _ => ⟨nofun, nofun⟩⟩
    rw [beginShutdown, if_pos hstop]
    exact hstop
  | wake | finish | join | leave => exact ⟨hstop, fun _ => ⟨nofun, nofun⟩⟩

/-- Nothing is lost or run twice: in every run, tasks are taken in the order of their
submission, every accepted task is queued, run by one worker or done, no task is taken
twice, a stopped pool accepts nothing, and when the `shutdown` that has stopped it returns,
all tasks are done. -/
theorem pool_conserves (hworkers : 0 < n) {trace : List (Transition (Pool α n) (Event α n))}
    {p : Pool α n} (hrun : Runs trace p) :
    p.accepted = p.taken ++ p.tasks ∧ p.taken.Nodup ∧
      (∀ task ∈ p.accepted, ∃! place, p.At task place) ∧ p.done.Nodup ∧
      (∀ t ∈ trace, t.source.stop = true → t.target.stop = true ∧
        ∀ body, t.label ≠ .accept body ∧ (t.label = .reject body → t.target = t.source)) ∧
      (p.shutdown = .returned → p.tasks = [] ∧ p.done.Perm p.accepted) := by
  have hconserved : Conserved p :=
    hrun.invariant (fun _ _ _ hstep h => h.step hstep) conserved_initial
  have hstopping : Stopping p :=
    hrun.invariant (fun _ _ _ hstep h => h.step hstep) stopping_initial
  refine ⟨hconserved.order, hconserved.taken_nodup, fun task htask => hconserved.place htask,
    hconserved.once, fun t ht hstop => stopped_stays (hrun.step_of_mem t ht) hstop,
    fun hreturned => ?_⟩
  have hall := hstopping.returned hreturned
  have htasks := (hstopping.left ⟨0, hworkers⟩ (hall _)).2
  exact ⟨htasks, hconserved.done_of_returned htasks hall⟩

/-- A pool of one worker runs a task and shuts down; a late `submit` throws. -/
theorem pool_conserves_one :
    ∃ trace, ∃ p : Pool Unit 1, Runs trace p ∧ p.shutdown = .returned ∧
      p.accepted = [⟨0, ()⟩] ∧ p.tasks = [] ∧ p.done.Perm p.accepted := by
  let task : Task Unit := ⟨0, ()⟩
  let queued : Pool Unit 1 := { tasks := [task], accepted := [task] }
  let taken := workerSection queued 0
  let done : Pool Unit 1 := { taken.setWorker 0 .ready with done := [task] }
  let stopped := beginShutdown done
  let left := workerSection stopped 0
  let joined : Pool Unit 1 := { left with shutdown := .joining 1 }
  have hsubmit : Step {} (.accept ()) queued := .accept rfl
  have htake : Step queued (.turn 0) taken := .turn rfl
  have hrunning : taken.workers 0 = .running task := rfl
  have hfinish : Step taken (.finish 0) done := .finish hrunning
  have hshutdown : Step done .shutdown stopped := .shutdown done
  have hlate : Step stopped (.reject ()) stopped := .reject rfl
  have hleft : Step stopped (.turn 0) left := .turn rfl
  have hjoining : left.shutdown = .joining (0 : Fin 1) := rfl
  have hjoin : Step left .join joined := .join hjoining rfl
  have hreturn : Step joined .leave { joined with shutdown := .returned } := .leave rfl
  have hrun := Run.head hsubmit (.head htake (.head hfinish (.head hshutdown (.head hlate
    (.head hleft (.head hjoin (.single hreturn)))))))
  have hall := pool_conserves Nat.one_pos hrun
  exact ⟨_, _, hrun, rfl, rfl, hall.2.2.2.2.2 rfl⟩

end StorageEngine.ThreadPool
