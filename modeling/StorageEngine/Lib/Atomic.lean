import StorageEngine.Lib.Transition

/-!
# Objects that are atomic to their callers

Any number of callers use a shared state at the same time.  They see the invocations of
their calls and the responses to them.

* `Step` is the object that is atomic: between its invocation and its response, each call
  takes effect in one step, whose result the response carries.
* `Linearizes` says that a system is as good as that: for every run of it, the atomic
  object has a run with the same invocations and responses and the same state.
* `linearizes_of_refinement` is the rule to prove it.  A view of the system says how far
  its calls have come in the run of the atomic object, and `run_settles` lets a step of
  one call decide others along with it.
-/

namespace Lib.Atomic

variable {σ τ ζ Op Res : Type}

/-- What the callers see: the invocation of the call with a number, or the response to
it. -/
inductive Action (Op Res : Type) where
  | invoke (call : ℕ) (op : Op)
  | respond (call : ℕ) (result : Res)

/-- How far a call has come. -/
inductive Stage (Op Res : Type) where
  | waiting (op : Op)
  | decided (result : Res)
  | returned

/-- One step of the object that is atomic to its callers.  The calls are numbered in the
order of their invocations. -/
inductive Step (apply : Op → σ → Res → σ → Prop) :
    σ × List (Stage Op Res) → Option (Action Op Res) → σ × List (Stage Op Res) → Prop where
  | invoke (s : σ) (calls : List (Stage Op Res)) (op : Op) :
      Step apply (s, calls) (some (.invoke calls.length op)) (s, calls ++ [.waiting op])
  | effect {s s' : σ} {before after : List (Stage Op Res)} {op : Op} {result : Res}
      (happly : apply op s result s') :
      Step apply (s, before ++ .waiting op :: after) none
        (s', before ++ .decided result :: after)
  | respond (s : σ) (before after : List (Stage Op Res)) (result : Res) :
      Step apply (s, before ++ .decided result :: after) (some (.respond before.length result))
        (s, before ++ .returned :: after)

/-- The invocations and responses of a run. -/
def visible (trace : List (Transition τ (Option (Action Op Res)))) : List (Action Op Res) :=
  trace.filterMap Transition.label

@[simp] theorem visible_append (first rest : List (Transition τ (Option (Action Op Res)))) :
    visible (first ++ rest) = visible first ++ visible rest :=
  List.filterMap_append

/-- Every run of the system from `start` looks to its callers like a run of the atomic
object, which ends in the same state. -/
def Linearizes (apply : Op → σ → Res → σ → Prop) (step : τ → Option (Action Op Res) → τ → Prop)
    (state : τ → σ) (start : τ) : Prop :=
  ∀ trace t, Run step start trace t →
    ∃ trace' calls, Run (Step apply) (state start, []) trace' (state t, calls) ∧
      visible trace' = visible trace

section Refinement

variable {apply : Op → σ → Res → σ → Prop}

/-- One step is a run. -/
theorem run_step {c c' : σ × List (Stage Op Res)} {l : Option (Action Op Res)}
    (hstep : Step apply c l c') :
    ∃ trace, Run (Step apply) c trace c' ∧ visible trace = l.toList := by
  refine ⟨_, .single hstep, ?_⟩
  cases l <;> rfl

/-- No step is a run. -/
theorem run_refl (c : σ × List (Stage Op Res)) :
    ∃ trace, Run (Step apply) c trace c ∧ visible trace = [] :=
  ⟨[], .refl c, rfl⟩

theorem run_trans {c c₁ c' : σ × List (Stage Op Res)} {seen seen' : List (Action Op Res)}
    (h : ∃ trace, Run (Step apply) c trace c₁ ∧ visible trace = seen)
    (h' : ∃ trace, Run (Step apply) c₁ trace c' ∧ visible trace = seen') :
    ∃ trace, Run (Step apply) c trace c' ∧ visible trace = seen ++ seen' := by
  obtain ⟨first, hfirst, rfl⟩ := h
  obtain ⟨rest, hrest, rfl⟩ := h'
  exact ⟨first ++ rest, hfirst.trans hrest, visible_append first rest⟩

/-- Calls whose effect leaves the state as it is can all be decided at once. -/
theorem run_settles {s : σ} {f g : ζ → Stage Op Res} {calls : List ζ}
    (h : ∀ c ∈ calls, f c = g c ∨
      ∃ op result, f c = .waiting op ∧ g c = .decided result ∧ apply op s result s)
    (before : List (Stage Op Res)) :
    ∃ trace, Run (Step apply) (s, before ++ calls.map f) trace (s, before ++ calls.map g) ∧
      visible trace = [] := by
  induction calls generalizing before with
  | nil => exact run_refl _
  | cons c calls ih =>
    rw [List.forall_mem_cons] at h
    have hrest := ih h.2 (before ++ [g c])
    rw [List.append_assoc, List.append_assoc, List.singleton_append, List.singleton_append] at hrest
    rw [List.map_cons, List.map_cons]
    rcases h.1 with hsame | ⟨op, result, hf, hg, happly⟩
    · rw [hsame]
      exact hrest
    · have hfirst : Step apply (s, before ++ f c :: calls.map f) none
          (s, before ++ g c :: calls.map f) := by
        rw [hf, hg]
        exact .effect happly
      exact run_trans (run_step hfirst) hrest

/-- A system linearizes when every step of it is matched by a run of the atomic object on
its view of the calls. -/
theorem linearizes_of_refinement {step : τ → Option (Action Op Res) → τ → Prop} {state : τ → σ}
    {start : τ} {Inv : τ → Prop} (view : τ → List (Stage Op Res)) (hstart : Inv start)
    (hview : view start = []) (hinv : ∀ t l t', step t l t' → Inv t → Inv t')
    (hstep : ∀ t l t', step t l t' → Inv t → ∃ trace,
      Run (Step apply) (state t, view t) trace (state t', view t') ∧ visible trace = l.toList) :
    Linearizes apply step state start := by
  have hrun : ∀ {trace t t'}, Run step t trace t' → Inv t → ∃ trace',
      Run (Step apply) (state t, view t) trace' (state t', view t') ∧
        visible trace' = visible trace := by
    intro trace t t' h
    induction h with
    | refl t => exact fun _ => run_refl _
    | @head t t₁ t' l rest hfirst hrest ih =>
      intro ht
      have hmatch := run_trans (hstep t l t₁ hfirst ht) (ih (hinv t l t₁ hfirst ht))
      have hvisible : visible (⟨t, l, t₁⟩ :: rest) = l.toList ++ visible rest := by
        cases l <;> rfl
      rw [hvisible]
      exact hmatch
  intro trace t h
  obtain ⟨trace', hrun', hvisible⟩ := hrun h hstart
  rw [hview] at hrun'
  exact ⟨trace', view t, hrun', hvisible⟩

end Refinement

end Lib.Atomic
