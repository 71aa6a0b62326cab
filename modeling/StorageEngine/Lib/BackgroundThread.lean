import Mathlib.Data.List.Count
import Mathlib.Logic.Relation

/-!
# A thread in the background

An object owns a thread, and an atomic flag that tells the thread to go on.  Any number of
threads call `start` and `stop` of the object, and each access to the flag or to the thread
object is a step of its own.

* `Kind` is how the object is written, `Next` is a step of its thread, and `Call.advance` is a
  step of a call.
* `Orderly` says which calls may overlap.  `Reachable.sound`: then nothing goes wrong.
  `overlap_aborts`: a `start` that overlaps a `stop` can abort the program.
* `Next.acc`: the thread ends when the flag is cleared.
-/

namespace Lib.BackgroundThread

/-! ## The thread -/

inductive Phase where
  /-- it sleeps, for so many seconds more -/
  | pause (seconds : ℕ)
  /-- it is at the head of its loop -/
  | test
  | round
  | ended
  deriving DecidableEq, Repr

/-- How an object is written. -/
structure Kind where
  /-- where the thread begins -/
  first : Phase
  /-- a sleep ends early when the flag is cleared -/
  polls : Bool
  /-- a `stop` that finds the flag cleared does nothing -/
  claims : Bool
  begins : first ≠ .ended

/-- A step of the thread.  How long it sleeps after a round is left open. -/
inductive Next (k : Kind) (flag : Bool) : Phase → Phase → Prop where
  | enter (hflag : flag = true) : Next k flag .test .round
  | leave (hflag : flag = false) : Next k flag .test .ended
  | rest (seconds : ℕ) : Next k flag .round (.pause seconds)
  | tick (seconds : ℕ) : Next k flag (.pause (seconds + 1)) (.pause seconds)
  | wake : Next k flag (.pause 0) .test
  | notice (seconds : ℕ) (hpolls : k.polls = true) (hflag : flag = false) :
      Next k flag (.pause seconds) .test

namespace Next

variable {k : Kind} {flag : Bool}

/-- A thread that has not ended can go on. -/
theorem exists_next {p : Phase} (h : p ≠ .ended) : ∃ p', Next k flag p p' := by
  cases p with
  | pause seconds =>
    cases seconds with
    | zero => exact ⟨_, .wake⟩
    | succ seconds => exact ⟨_, .tick seconds⟩
  | test =>
    cases flag with
    | true => exact ⟨_, .enter rfl⟩
    | false => exact ⟨_, .leave rfl⟩
  | round => exact ⟨_, .rest 0⟩
  | ended => exact absurd rfl h

theorem ne_ended {p p' : Phase} (h : Next k true p p') : p' ≠ .ended := by
  cases h with
  | leave hflag => cases hflag
  | enter | rest | tick | wake | notice => simp

/-- With the flag cleared, the thread makes finitely many steps. -/
theorem acc (p : Phase) : Acc (fun p' p => Next k false p p') p := by
  have hended : Acc (fun p' p => Next k false p p') .ended := ⟨_, fun _ h => by cases h⟩
  have htest : Acc (fun p' p => Next k false p p') .test := by
    refine ⟨_, fun p' h => ?_⟩
    cases h with
    | enter hflag => cases hflag
    | leave => exact hended
  have hpause : ∀ seconds, Acc (fun p' p => Next k false p p') (.pause seconds) := by
    intro seconds
    induction seconds with
    | zero =>
      refine ⟨_, fun p' h => ?_⟩
      cases h with
      | wake => exact htest
      | notice => exact htest
    | succ seconds ih =>
      refine ⟨_, fun p' h => ?_⟩
      cases h with
      | tick => exact ih
      | notice => exact htest
  cases p with
  | pause seconds => exact hpause seconds
  | test => exact htest
  | round =>
    refine ⟨_, fun p' h => ?_⟩
    cases h with
    | rest seconds => exact hpause seconds
  | ended => exact hended

/-- With the flag cleared, the thread can come to its end. -/
theorem reaches_ended (p : Phase) : Relation.ReflTransGen (Next k false) p .ended := by
  induction @acc k p with
  | intro p _ ih =>
    by_cases hp : p = .ended
    · rw [hp]
    · obtain ⟨p', hnext⟩ := @exists_next k false p hp
      exact .head hnext (ih p' hnext)

end Next

/-! ## The calls -/

inductive Op where
  | start
  | stop
  deriving DecidableEq, Repr

/-- Where a call is. -/
inductive Call where
  /-- before `exchange(true)` -/
  | starting
  /-- before the assignment of the new thread -/
  | spawning
  /-- before the flag is cleared -/
  | stopping
  /-- before `joinable()` -/
  | joining
  /-- in `join()` -/
  | waiting
  deriving DecidableEq, Repr

def Call.op : Call → Op
  | .starting | .spawning => .start
  | .stopping | .joining | .waiting => .stop

def Op.first : Op → Call
  | .start => .starting
  | .stop => .stopping

/-- The members of the object. -/
structure Object where
  flag : Bool := false
  /-- the joinable thread -/
  thread : Option Phase := none
  /-- the program has been aborted, or two calls have joined one thread -/
  aborted : Bool := false
  deriving DecidableEq, Repr

/-- A step of a call: where it is then, if it has not returned.  `none` is a call that waits.
An assignment to a joinable thread aborts the program. -/
def Call.advance (k : Kind) (o : Object) : Call → Option (Option Call × Object)
  | .starting =>
    some (if o.flag = true then none else some .spawning, { o with flag := true })
  | .spawning =>
    some (none, if o.thread = none then { o with thread := some k.first }
      else { o with aborted := true })
  | .stopping =>
    some (if k.claims = true ∧ o.flag = false then none else some .joining,
      { o with flag := false })
  | .joining => some (if o.thread = none then none else some .waiting, o)
  | .waiting =>
    match o.thread with
    | none => some (none, { o with aborted := true })
    | some .ended => some (none, { o with thread := none })
    | some _ => none

/-- The end of the object.  A thread that is left aborts the program. -/
def Object.destroy (o : Object) : Object :=
  if o.thread = none then o else { o with aborted := true }

/-- The object, the calls in progress, and the calls begun so far, the last one first. -/
structure State where
  object : Object := {}
  calls : List Call := []
  begun : List Op := []

/-- One step, when calls begin as `admits` says. -/
inductive Step (k : Kind) (admits : List Call → Op → Prop) : State → State → Prop where
  | begin {s : State} (op : Op) (hadmits : admits s.calls op) :
      Step k admits s
        { s with
          calls := op.first :: s.calls
          begun := op :: s.begun }
  | advance {o o' : Object} {call : Call} {next : Option Call} {before after : List Call}
      {begun : List Op} (hadvance : call.advance k o = some (next, o')) :
      Step k admits ⟨o, before ++ call :: after, begun⟩
        ⟨o', before ++ (next.toList ++ after), begun⟩
  | thread {s : State} {p p' : Phase} (hthread : s.object.thread = some p)
      (hnext : Next k s.object.flag p p') :
      Step k admits s { s with object := { s.object with thread := some p' } }

/-- The states of all runs. -/
def Reachable (k : Kind) (admits : List Call → Op → Prop) (s : State) : Prop :=
  Relation.ReflTransGen (Step k admits) {} s

/-- A `start` may overlap other `start`s.  A `stop` may overlap other `stop`s if those that find
the flag cleared do nothing. -/
def Orderly (k : Kind) (calls : List Call) : Op → Prop
  | .start => ∀ call ∈ calls, call.op = .start
  | .stop => ∀ call ∈ calls, call.op = .stop ∧ k.claims = true

/-- A call may overlap calls of its kind. -/
def SameOp (calls : List Call) (op : Op) : Prop :=
  ∀ call ∈ calls, call.op = op

theorem SameOp.orderly {k : Kind} (hclaims : k.claims = true) {calls : List Call} {op : Op}
    (h : SameOp calls op) : Orderly k calls op := by
  cases op with
  | start => exact h
  | stop => exact fun call hcall => ⟨h call hcall, hclaims⟩

theorem Reachable.mono {k : Kind} {admits admits' : List Call → Op → Prop} {s : State}
    (hadmits : ∀ {calls op}, admits calls op → admits' calls op) (h : Reachable k admits s) :
    Reachable k admits' s := by
  refine Relation.ReflTransGen.mono (fun s s' hstep => ?_) _ _ h
  cases hstep with
  | begin op hop => exact .begin op (hadmits hop)
  | advance hadvance => exact .advance hadvance
  | thread hthread hnext => exact .thread hthread hnext

/-! ## The invariant -/

/-- How many calls are about to join the thread, or wait for it. -/
def joiners (calls : List Call) : ℕ :=
  calls.count .joining + calls.count .waiting

/-- The invariant.  The calls in progress are those of the last begun kind. -/
structure Sound (k : Kind) (s : State) : Prop where
  running : s.object.aborted = false
  ops : ∀ call ∈ s.calls, s.begun.head? = some call.op
  awake : s.object.flag = true → s.object.thread ≠ some .ended
  alone : k.claims = false → s.begun.head? = some .stop → s.calls.length ≤ 1
  unused : s.begun.head? = none → s.object.flag = false ∧ s.object.thread = none
  starting : s.begun.head? = some .start → s.object.flag = false →
    s.object.thread = none ∧ s.calls ≠ [] ∧ s.calls.count .spawning = 0
  started : s.begun.head? = some .start → s.object.flag = true →
    s.calls.count .spawning + (if s.object.thread = none then 0 else 1) = 1
  stopping : s.begun.head? = some .stop → s.object.flag = true →
    s.object.thread ≠ none ∧ s.calls ≠ [] ∧ joiners s.calls = 0
  stopped : s.begun.head? = some .stop → s.object.flag = false →
    joiners s.calls ≤ 1 ∧ (s.object.thread ≠ none → joiners s.calls = 1) ∧
      (s.object.thread = none → s.calls.count .waiting = 0)

namespace Sound

variable {k : Kind} {s : State}

theorem initial : Sound k {} := by
  constructor <;> simp [joiners]

/-- With no call in progress, the flag says whether the last call was a `start`, and whether
there is a thread. -/
theorem idle (h : Sound k s) (hcalls : s.calls = []) :
    (s.object.flag = true ↔ s.begun.head? = some .start) ∧
      (s.object.thread = none ↔ s.object.flag = false) := by
  have hstarting := h.starting
  have hstarted := h.started
  have hstopping := h.stopping
  have hstopped := h.stopped
  simp only [hcalls, joiners, List.count_nil] at hstarting hstarted hstopping hstopped
  cases hhead : s.begun.head? with
  | none => simp [h.unused hhead]
  | some op =>
    cases hflag : s.object.flag with
    | true =>
      cases op with
      | start =>
        have hone := hstarted hhead hflag
        by_cases hthread : s.object.thread = none
        · simp [hthread] at hone
        · simp [hthread]
      | stop => exact absurd rfl (hstopping hhead hflag).2.1
    | false =>
      cases op with
      | start => exact absurd rfl (hstarting hhead hflag).2.1
      | stop =>
        by_contra hnone
        have hsome : s.object.thread ≠ none := by simpa using hnone
        exact absurd ((hstopped hhead hflag).2.1 hsome) (by simp)

theorem begin_start (h : Sound k s) (hadmits : Orderly k s.calls .start) :
    Sound k { s with calls := .starting :: s.calls, begun := .start :: s.begun } := by
  have hready : (s.object.flag = false →
        s.object.thread = none ∧ s.calls.count .spawning = 0) ∧
      (s.object.flag = true →
        s.calls.count .spawning + (if s.object.thread = none then 0 else 1) = 1) := by
    by_cases hcalls : s.calls = []
    · obtain ⟨hflag, hthread⟩ := h.idle hcalls
      refine ⟨fun hoff => ⟨hthread.mpr hoff, ?_⟩, fun hon => h.started (hflag.mp hon) hon⟩
      rw [hcalls]
      rfl
    · obtain ⟨call, calls, heq⟩ := List.exists_cons_of_ne_nil hcalls
      have hcall : call ∈ s.calls := by simp [heq]
      have hhead : s.begun.head? = some .start := by
        rw [h.ops call hcall, hadmits call hcall]
      exact ⟨fun hoff => ⟨(h.starting hhead hoff).1, (h.starting hhead hoff).2.2⟩,
        h.started hhead⟩
  refine ⟨h.running, ?_, h.awake, ?_, ?_, ?_, ?_, ?_, ?_⟩
  · intro call hcall
    rcases List.mem_cons.mp hcall with rfl | hcall
    · rfl
    · rw [hadmits call hcall]
      rfl
  · simp
  · simp
  · simpa using fun hoff => hready.1 hoff
  · simpa using hready.2
  · simp
  · simp

theorem begin_stop (h : Sound k s) (hadmits : Orderly k s.calls .stop) :
    Sound k { s with calls := .stopping :: s.calls, begun := .stop :: s.begun } := by
  have hready : (s.object.flag = true → s.object.thread ≠ none ∧ joiners s.calls = 0) ∧
      (s.object.flag = false → joiners s.calls ≤ 1 ∧
        (s.object.thread ≠ none → joiners s.calls = 1) ∧
        (s.object.thread = none → s.calls.count .waiting = 0)) := by
    by_cases hcalls : s.calls = []
    · obtain ⟨-, hthread⟩ := h.idle hcalls
      rw [hcalls]
      refine ⟨fun hon => ⟨fun hnone => ?_, rfl⟩,
        fun hoff => ⟨by simp [joiners], fun hsome => absurd (hthread.mpr hoff) hsome,
          fun _ => rfl⟩⟩
      rw [hthread.mp hnone] at hon
      cases hon
    · obtain ⟨call, calls, heq⟩ := List.exists_cons_of_ne_nil hcalls
      have hcall : call ∈ s.calls := by simp [heq]
      have hhead : s.begun.head? = some .stop := by
        rw [h.ops call hcall, (hadmits call hcall).1]
      exact ⟨fun hon => ⟨(h.stopping hhead hon).1, (h.stopping hhead hon).2.2⟩,
        h.stopped hhead⟩
  refine ⟨h.running, ?_, h.awake, ?_, ?_, ?_, ?_, ?_, ?_⟩
  · intro call hcall
    rcases List.mem_cons.mp hcall with rfl | hcall
    · rfl
    · rw [(hadmits call hcall).1]
      rfl
  · intro hclaims _
    cases hcalls : s.calls with
    | nil => simp
    | cons call calls =>
      have hcall : call ∈ s.calls := by simp [hcalls]
      rw [(hadmits call hcall).2] at hclaims
      cases hclaims
  · simp
  · simp
  · simp
  · simpa [joiners] using hready.1
  · simpa [joiners] using hready.2

theorem thread (h : Sound k s) {p p' : Phase} (hthread : s.object.thread = some p)
    (hnext : Next k s.object.flag p p') :
    Sound k { s with object := { s.object with thread := some p' } } := by
  have hstarting := h.starting
  have hstarted := h.started
  have hstopping := h.stopping
  have hstopped := h.stopped
  have hunused := h.unused
  rw [hthread] at hstarting hstarted hstopping hstopped hunused
  refine ⟨h.running, h.ops, fun hflag => ?_, h.alone, ?_, ?_, ?_, ?_, ?_⟩
  · rw [show s.object.flag = true from hflag] at hnext
    simpa using hnext.ne_ended
  · simpa using hunused
  · simpa using hstarting
  · simpa using hstarted
  · simpa using hstopping
  · simpa using hstopped

section Advance

variable {o o' : Object} {call : Call} {next : Option Call} {before after : List Call}
  {begun : List Op}

/-- A call is of the same kind after a step, and there are no more calls. -/
theorem ops_advance (h : Sound k ⟨o, before ++ call :: after, begun⟩)
    (next : Option Call) (hop : ∀ call' ∈ next, call'.op = call.op) :
    (∀ call' ∈ before ++ (next.toList ++ after), begun.head? = some call'.op) ∧
      (before ++ (next.toList ++ after)).length ≤ (before ++ call :: after).length := by
  have hops := h.ops
  refine ⟨fun call' hcall' => ?_, ?_⟩
  · simp only [List.mem_append, List.mem_cons, Option.mem_toList] at hcall' hops
    rcases hcall' with hcall' | hcall' | hcall'
    · exact hops call' (.inl hcall')
    · rw [hop call' hcall']
      exact hops call (.inr (.inl rfl))
    · exact hops call' (.inr (.inr hcall'))
  · cases next <;> simp

/-- The invariant while `start`s are in progress. -/
theorem of_start {calls : List Call} (hhead : begun.head? = some .start)
    (hrunning : o.aborted = false) (hops : ∀ call ∈ calls, begun.head? = some call.op)
    (hawake : o.flag = true → o.thread ≠ some .ended)
    (hstarting : o.flag = false → o.thread = none ∧ calls ≠ [] ∧ calls.count .spawning = 0)
    (hstarted : o.flag = true →
      calls.count .spawning + (if o.thread = none then 0 else 1) = 1) :
    Sound k ⟨o, calls, begun⟩ := by
  refine ⟨hrunning, hops, hawake, ?_, ?_, fun _ => hstarting, fun _ => hstarted, ?_, ?_⟩ <;>
    simp [hhead]

/-- The invariant while `stop`s are in progress. -/
theorem of_stop {calls : List Call} (hhead : begun.head? = some .stop)
    (hrunning : o.aborted = false) (hops : ∀ call ∈ calls, begun.head? = some call.op)
    (hawake : o.flag = true → o.thread ≠ some .ended)
    (halone : k.claims = false → calls.length ≤ 1)
    (hstopping : o.flag = true → o.thread ≠ none ∧ calls ≠ [] ∧ joiners calls = 0)
    (hstopped : o.flag = false → joiners calls ≤ 1 ∧ (o.thread ≠ none → joiners calls = 1) ∧
      (o.thread = none → calls.count .waiting = 0)) : Sound k ⟨o, calls, begun⟩ := by
  refine ⟨hrunning, hops, hawake, fun h _ => halone h, ?_, ?_, ?_, fun _ => hstopping,
    fun _ => hstopped⟩ <;> simp [hhead]

theorem starting_advance (h : Sound k ⟨o, before ++ .starting :: after, begun⟩)
    (hadvance : Call.starting.advance k o = some (next, o')) :
    Sound k ⟨o', before ++ (next.toList ++ after), begun⟩ := by
  simp only [Call.advance, Option.some.injEq, Prod.mk.injEq] at hadvance
  obtain ⟨rfl, rfl⟩ := hadvance
  have hhead : begun.head? = some .start := h.ops .starting (by simp)
  have hops := h.ops_advance (if o.flag = true then none else some .spawning)
    (by split <;> simp [Call.op])
  cases hflag : o.flag with
  | true =>
    have hone := h.started hhead hflag
    simp only [hflag, if_true] at hops ⊢
    refine of_start hhead h.running hops.1 (fun _ => h.awake hflag) (fun h => by cases h)
      fun _ => ?_
    simpa [List.count_append, List.count_cons] using hone
  | false =>
    obtain ⟨hthread, -, hnone⟩ := h.starting hhead hflag
    simp only [hflag, Bool.false_eq_true, if_false] at hops ⊢
    refine of_start hhead h.running hops.1 (fun _ => by simp [show o.thread = none from hthread])
      (fun h => by cases h) fun _ => ?_
    simp [List.count_append] at hnone ⊢
    simp [show o.thread = none from hthread, hnone]

theorem spawning_advance (h : Sound k ⟨o, before ++ .spawning :: after, begun⟩)
    (hadvance : Call.spawning.advance k o = some (next, o')) :
    Sound k ⟨o', before ++ (next.toList ++ after), begun⟩ := by
  simp only [Call.advance, Option.some.injEq, Prod.mk.injEq] at hadvance
  obtain ⟨rfl, rfl⟩ := hadvance
  have hhead : begun.head? = some .start := h.ops .spawning (by simp)
  have hops := h.ops_advance none (by simp)
  have hflag : o.flag = true := by
    by_contra hoff
    have hnone := (h.starting hhead (Bool.not_eq_true _ ▸ hoff)).2.2
    simp [List.count_append] at hnone
  -- the winner of the exchange finds no thread
  have hone := h.started hhead hflag
  simp only [List.count_append, List.count_cons_self] at hone
  have hthread : o.thread = none := by
    by_contra hsome
    rw [if_neg hsome] at hone
    omega
  rw [if_pos hthread] at hone ⊢
  refine of_start hhead h.running hops.1 (fun _ => by simpa using k.begins)
    (fun h => by rw [hflag] at h; cases h) fun _ => ?_
  simp only [Option.toList_none, List.nil_append, List.count_append]
  simp
  omega

theorem joiners_split (before : List Call) (call : Call) (after : List Call) :
    joiners (before ++ call :: after) =
      joiners before + joiners after + joiners [call] := by
  simp only [joiners, List.count_append, List.count_cons, List.count_nil]
  omega

theorem joiners_append (before after : List Call) :
    joiners (before ++ after) = joiners before + joiners after := by
  simp only [joiners, List.count_append]
  omega

theorem stopping_advance (h : Sound k ⟨o, before ++ .stopping :: after, begun⟩)
    (hadvance : Call.stopping.advance k o = some (next, o')) :
    Sound k ⟨o', before ++ (next.toList ++ after), begun⟩ := by
  simp only [Call.advance, Option.some.injEq, Prod.mk.injEq] at hadvance
  obtain ⟨rfl, rfl⟩ := hadvance
  have hhead : begun.head? = some .stop := h.ops .stopping (by simp)
  have hops := h.ops_advance (if k.claims = true ∧ o.flag = false then none else some .joining)
    (by split <;> simp [Call.op])
  refine of_stop hhead h.running hops.1 (fun h => by cases h)
    (fun hclaims => Nat.le_trans hops.2 (h.alone hclaims hhead)) (fun h => by cases h)
    fun _ => ?_
  by_cases hidle : k.claims = true ∧ o.flag = false
  · have hstopped := h.stopped hhead hidle.2
    rw [if_pos hidle]
    simpa [joiners, List.count_append] using hstopped
  · rw [if_neg hidle]
    have hnone : joiners before = 0 ∧ joiners after = 0 ∧
        (o.thread = none → before.count .waiting = 0 ∧ after.count .waiting = 0) := by
      cases hflag : o.flag with
      | true =>
        obtain ⟨hthread, -, hzero⟩ := h.stopping hhead hflag
        rw [joiners_split] at hzero
        exact ⟨by omega, by omega, fun hnone => absurd hnone hthread⟩
      | false =>
        have hclaims : k.claims = false := by simpa [hflag] using hidle
        have halone : (before ++ Call.stopping :: after).length ≤ 1 := h.alone hclaims hhead
        simp only [List.length_append, List.length_cons] at halone
        obtain rfl := List.eq_nil_of_length_eq_zero (show before.length = 0 by omega)
        obtain rfl := List.eq_nil_of_length_eq_zero (show after.length = 0 by omega)
        exact ⟨rfl, rfl, fun _ => ⟨rfl, rfl⟩⟩
    have hone : joiners (before ++ ((some Call.joining).toList ++ after)) = 1 := by
      show joiners (before ++ Call.joining :: after) = 1
      rw [joiners_split, hnone.1, hnone.2.1]
      rfl
    refine ⟨Nat.le_of_eq hone, fun _ => hone, fun hthread => ?_⟩
    obtain ⟨hbefore, hafter⟩ := hnone.2.2 hthread
    simp [List.count_append, hbefore, hafter]

/-- The call that joins the thread is the only one. -/
theorem joiner_alone (h : Sound k ⟨o, before ++ call :: after, begun⟩)
    (hcall : joiners [call] = 1) (hhead : begun.head? = some .stop) :
    o.flag = false ∧ joiners before = 0 ∧ joiners after = 0 := by
  have hflag : o.flag = false := by
    by_contra hon
    have hzero := (h.stopping hhead (Bool.not_eq_false _ ▸ hon)).2.2
    rw [joiners_split] at hzero
    omega
  have hone := (h.stopped hhead hflag).1
  rw [joiners_split] at hone
  exact ⟨hflag, by omega, by omega⟩

theorem joining_advance (h : Sound k ⟨o, before ++ .joining :: after, begun⟩)
    (hadvance : Call.joining.advance k o = some (next, o')) :
    Sound k ⟨o', before ++ (next.toList ++ after), begun⟩ := by
  simp only [Call.advance, Option.some.injEq, Prod.mk.injEq] at hadvance
  obtain ⟨rfl, rfl⟩ := hadvance
  have hhead : begun.head? = some .stop := h.ops .joining (by simp)
  have hops := h.ops_advance (if o.thread = none then none else some .waiting)
    (by split <;> simp [Call.op])
  obtain ⟨hflag, hbefore, hafter⟩ := h.joiner_alone rfl hhead
  refine of_stop hhead h.running hops.1 h.awake
    (fun hclaims => Nat.le_trans hops.2 (h.alone hclaims hhead))
    (fun hon => by rw [hflag] at hon; cases hon) fun _ => ?_
  by_cases hthread : o.thread = none
  · have hzero : joiners (before ++ ((none : Option Call).toList ++ after)) = 0 := by
      rw [Option.toList_none, List.nil_append, joiners_append, hbefore, hafter]
    rw [if_pos hthread]
    refine ⟨by omega, fun hsome => absurd hthread hsome, fun _ => ?_⟩
    rw [joiners] at hzero
    omega
  · have hone : joiners (before ++ ((some Call.waiting).toList ++ after)) = 1 := by
      show joiners (before ++ Call.waiting :: after) = 1
      rw [joiners_split, hbefore, hafter]
      rfl
    rw [if_neg hthread]
    exact ⟨Nat.le_of_eq hone, fun _ => hone, fun hnone => absurd hnone hthread⟩

theorem waiting_advance (h : Sound k ⟨o, before ++ .waiting :: after, begun⟩)
    (hadvance : Call.waiting.advance k o = some (next, o')) :
    Sound k ⟨o', before ++ (next.toList ++ after), begun⟩ := by
  have hhead : begun.head? = some .stop := h.ops .waiting (by simp)
  obtain ⟨hflag, hbefore, hafter⟩ := h.joiner_alone rfl hhead
  have hops := h.ops_advance none (by simp)
  have hzero : joiners (before ++ ((none : Option Call).toList ++ after)) = 0 := by
    rw [Option.toList_none, List.nil_append, joiners_append, hbefore, hafter]
  cases hthread : o.thread with
  | none =>
    have hwaiting := (h.stopped hhead hflag).2.2 hthread
    simp [List.count_append] at hwaiting
  | some p =>
    cases p with
    | ended =>
      simp only [Call.advance, hthread, Option.some.injEq, Prod.mk.injEq] at hadvance
      obtain ⟨rfl, rfl⟩ := hadvance
      refine of_stop hhead h.running hops.1 (by simp)
        (fun hclaims => Nat.le_trans hops.2 (h.alone hclaims hhead))
        (fun hon => by rw [hflag] at hon; cases hon) fun _ => ?_
      refine ⟨by omega, fun hsome => absurd rfl hsome, fun _ => ?_⟩
      rw [joiners] at hzero
      omega
    | pause | test | round => simp [Call.advance, hthread] at hadvance

theorem advance (h : Sound k ⟨o, before ++ call :: after, begun⟩)
    (hadvance : call.advance k o = some (next, o')) :
    Sound k ⟨o', before ++ (next.toList ++ after), begun⟩ := by
  cases call with
  | starting => exact h.starting_advance hadvance
  | spawning => exact h.spawning_advance hadvance
  | stopping => exact h.stopping_advance hadvance
  | joining => exact h.joining_advance hadvance
  | waiting => exact h.waiting_advance hadvance

end Advance

theorem step {s' : State} (h : Sound k s) (hstep : Step k (Orderly k) s s') : Sound k s' := by
  cases hstep with
  | begin op hadmits =>
    cases op with
    | start => exact h.begin_start hadmits
    | stop => exact h.begin_stop hadmits
  | advance hadvance => exact h.advance hadvance
  | thread hthread hnext => exact h.thread hthread hnext

end Sound

/-- Nothing goes wrong in a run whose calls are in order. -/
theorem Reachable.sound {k : Kind} {s : State} (h : Reachable k (Orderly k) s) : Sound k s := by
  induction h with
  | refl => exact .initial
  | tail _ hstep ih => exact ih.step hstep

/-- With no call in progress, the object can be destroyed unless the last call was a `start`. -/
theorem Sound.destroy {k : Kind} {s : State} (h : Sound k s) (hcalls : s.calls = []) :
    s.object.destroy.aborted = true ↔ s.begun.head? = some .start := by
  obtain ⟨hflag, hthread⟩ := h.idle hcalls
  rw [← hflag, Object.destroy]
  split
  · next hnone => simp [h.running, hthread.mp hnone]
  · next hsome =>
    rw [hthread, Bool.not_eq_false] at hsome
    simp [hsome]

/-- A `stop` that waits has cleared the flag, and the thread it waits for is there. -/
theorem Sound.waits {k : Kind} {s : State} (h : Sound k s) (hwaits : .waiting ∈ s.calls) :
    s.object.flag = false ∧ s.object.thread ≠ none := by
  obtain ⟨before, after, hcalls⟩ := List.append_of_mem hwaits
  obtain ⟨o, calls, begun⟩ := s
  obtain rfl : calls = before ++ .waiting :: after := hcalls
  have hhead : begun.head? = some .stop := h.ops .waiting hwaits
  have hflag := (h.joiner_alone rfl hhead).1
  refine ⟨hflag, fun hnone => ?_⟩
  have hzero := (h.stopped hhead hflag).2.2 hnone
  simp [List.count_append] at hzero

/-! ## Calls out of order -/

section Disorder

variable {k : Kind} {admits : List Call → Op → Prop}

/-- A step of the call that was begun last. -/
theorem Step.head {o o' : Object} {call : Call} {after : List Call} {begun : List Op}
    (next : Option Call) (hadvance : call.advance k o = some (next, o')) :
    Step k admits ⟨o, call :: after, begun⟩ ⟨o', next.toList ++ after, begun⟩ :=
  @Step.advance k admits o o' call next [] after begun hadvance

/-- The thread comes to its end, while the calls wait. -/
theorem reaches_ended (p : Phase) (calls : List Call) (begun : List Op) :
    Relation.ReflTransGen (Step k admits) ⟨{ thread := some p }, calls, begun⟩
      ⟨{ thread := some .ended }, calls, begun⟩ := by
  induction @Next.reaches_ended k p using Relation.ReflTransGen.head_induction_on with
  | refl => exact .refl
  | head hnext _ ih => exact .head (.thread rfl hnext) ih

/-- A `start` that overlaps a `stop` can find the thread of another `start`. -/
theorem overlap_aborts (k : Kind) :
    ∃ s, Reachable k (fun _ _ => True) s ∧ s.object.aborted = true := by
  let Step' := Step k fun _ _ => True
  -- the first `start` has set the flag and has no thread yet
  have hstart : Step' ⟨{}, [.starting], [.start]⟩ ⟨{ flag := true }, [.spawning], [.start]⟩ :=
    .head (some .spawning) (by simp [Call.advance])
  -- a `stop` clears the flag and finds no thread
  have hclear : Step' ⟨{ flag := true }, [.stopping, .spawning], [.stop, .start]⟩
      ⟨{}, [.joining, .spawning], [.stop, .start]⟩ :=
    .head (some .joining) (by simp [Call.advance])
  have hstop : Step' ⟨{}, [.joining, .spawning], [.stop, .start]⟩
      ⟨{}, [.spawning], [.stop, .start]⟩ := .head none rfl
  -- so a second `start` goes on to its thread too
  have hagain : Step' ⟨{}, [.starting, .spawning], [.start, .stop, .start]⟩
      ⟨{ flag := true }, [.spawning, .spawning], [.start, .stop, .start]⟩ :=
    .head (some .spawning) (by simp [Call.advance])
  have hspawn : Step' ⟨{ flag := true }, [.spawning, .spawning], [.start, .stop, .start]⟩
      ⟨{ flag := true, thread := some k.first }, [.spawning], [.start, .stop, .start]⟩ :=
    .head none rfl
  have habort : Step' ⟨{ flag := true, thread := some k.first }, [.spawning],
        [.start, .stop, .start]⟩
      ⟨{ flag := true, thread := some k.first, aborted := true }, [],
        [.start, .stop, .start]⟩ := .head none rfl
  refine ⟨⟨{ flag := true, thread := some k.first, aborted := true }, [],
    [.start, .stop, .start]⟩, ?_, rfl⟩
  exact ((((((((Relation.ReflTransGen.single (.begin .start trivial)).tail hstart).tail
    (.begin .stop trivial)).tail hclear).tail hstop).tail (.begin .start trivial)).tail
      hagain).tail hspawn).tail habort

/-- Two `stop`s that overlap can join the same thread, if both go on to do it. -/
theorem stops_abort (hclaims : k.claims = false) :
    ∃ s, Reachable k SameOp s ∧ s.object.aborted = true := by
  let Step' := Step k SameOp
  have hstart : Step' ⟨{}, [.starting], [.start]⟩ ⟨{ flag := true }, [.spawning], [.start]⟩ :=
    .head (some .spawning) (by simp [Call.advance])
  have hspawn : Step' ⟨{ flag := true }, [.spawning], [.start]⟩
      ⟨{ flag := true, thread := some k.first }, [], [.start]⟩ := .head none rfl
  have hclear : Step' ⟨{ flag := true, thread := some k.first }, [.stopping], [.stop, .start]⟩
      ⟨{ thread := some k.first }, [.joining], [.stop, .start]⟩ :=
    .head (some .joining) (by simp [Call.advance])
  have hjoin : Step' ⟨{ thread := some k.first }, [.joining], [.stop, .start]⟩
      ⟨{ thread := some k.first }, [.waiting], [.stop, .start]⟩ :=
    .head (some .waiting) (by simp [Call.advance])
  -- the second `stop` does not look at the flag that it clears
  have hclear' : Step' ⟨{ thread := some k.first }, [.stopping, .waiting],
        [.stop, .stop, .start]⟩
      ⟨{ thread := some k.first }, [.joining, .waiting], [.stop, .stop, .start]⟩ :=
    .head (some .joining) (by simp [Call.advance, hclaims])
  have hjoin' : Step' ⟨{ thread := some k.first }, [.joining, .waiting], [.stop, .stop, .start]⟩
      ⟨{ thread := some k.first }, [.waiting, .waiting], [.stop, .stop, .start]⟩ :=
    .head (some .waiting) (by simp [Call.advance])
  have hdone : Step' ⟨{ thread := some .ended }, [.waiting, .waiting], [.stop, .stop, .start]⟩
      ⟨{}, [.waiting], [.stop, .stop, .start]⟩ := .head none rfl
  have habort : Step' ⟨{}, [.waiting], [.stop, .stop, .start]⟩
      ⟨{ aborted := true }, [], [.stop, .stop, .start]⟩ := .head none rfl
  have hbegin : Step' {} ⟨{}, [.starting], [.start]⟩ := .begin .start (by simp [SameOp])
  have hstop : Step' ⟨{ flag := true, thread := some k.first }, [], [.start]⟩
      ⟨{ flag := true, thread := some k.first }, [.stopping], [.stop, .start]⟩ :=
    .begin .stop (by simp [SameOp])
  have hstop' : Step' ⟨{ thread := some k.first }, [.waiting], [.stop, .start]⟩
      ⟨{ thread := some k.first }, [.stopping, .waiting], [.stop, .stop, .start]⟩ :=
    .begin .stop (by simp [SameOp, Call.op])
  refine ⟨⟨{ aborted := true }, [], [.stop, .stop, .start]⟩, ?_, rfl⟩
  have hwait := ((((((((Relation.ReflTransGen.single hbegin).tail hstart).tail hspawn).tail
    hstop).tail hclear).tail hjoin).tail hstop').tail hclear').tail hjoin'
  exact ((hwait.trans (reaches_ended k.first _ _)).tail hdone).tail habort

end Disorder

end Lib.BackgroundThread
