import Mathlib.Data.List.Induction

/-!
# Labelled transition systems

A system is a relation `step s l s'` with a label on each step.  `Run` is a finite
run with its transitions.

* `Run.invariant`: what every step preserves holds at the end of a run.
* `Run.invariant_trace` and `Run.invariant_before`: an invariant of the state and of the
  transitions so far, at the end of a run and before each of its steps.
* `Run.forall_of`: a property of all steps of a run, when it and the invariant follow
  from a condition on each step.
* `Run.count_le`: how many steps of a kind a run has, when each lowers a measure.
* `Run.simulates`: a system that simulates each step of another has its runs.
* `Run.simulates_seen`: the same when a step may take several steps or none, and only the labels
  that are there are seen.
-/

namespace Lib

variable {σ Label : Type}

/-- One step of a run. -/
structure Transition (σ Label : Type) where
  source : σ
  label : Label
  target : σ

/-- A run from one state to another, with its transitions in order. -/
inductive Run (step : σ → Label → σ → Prop) : σ → List (Transition σ Label) → σ → Prop where
  | refl (s : σ) : Run step s [] s
  | head {s s₁ s' : σ} {l : Label} {rest : List (Transition σ Label)} (hstep : step s l s₁)
      (hrest : Run step s₁ rest s') : Run step s (⟨s, l, s₁⟩ :: rest) s'

namespace Run

variable {step : σ → Label → σ → Prop}

theorem single {s s' : σ} {l : Label} (hstep : step s l s') : Run step s [⟨s, l, s'⟩] s' :=
  .head hstep (.refl s')

theorem trans {s s₁ s' : σ} {first rest : List (Transition σ Label)} (h : Run step s first s₁)
    (h' : Run step s₁ rest s') : Run step s (first ++ rest) s' := by
  induction h with
  | refl s => exact h'
  | head hstep _ ih => exact .head hstep (ih h')

theorem eq_of_nil {s s' : σ} (h : Run step s [] s') : s = s' := by
  cases h
  rfl

/-- A run in two parts. -/
theorem split {s s' : σ} {first rest : List (Transition σ Label)}
    (h : Run step s (first ++ rest) s') : ∃ s₁, Run step s first s₁ ∧ Run step s₁ rest s' := by
  induction first generalizing s with
  | nil => exact ⟨s, .refl s, h⟩
  | cons t first ih =>
    cases h with
    | head hstep hrest =>
      obtain ⟨s₁, hfirst, hlast⟩ := ih hrest
      exact ⟨s₁, .head hstep hfirst, hlast⟩

/-- A run up to one of its steps, and from there. -/
theorem split_step {s s' : σ} {before after : List (Transition σ Label)}
    {t : Transition σ Label} (h : Run step s (before ++ t :: after) s') :
    Run step s before t.source ∧ step t.source t.label t.target ∧
      Run step t.target after s' := by
  obtain ⟨s₁, hbefore, hrest⟩ := h.split
  cases hrest with
  | head hstep hafter => exact ⟨hbefore, hstep, hafter⟩

/-- What every step preserves holds at the end of a run. -/
theorem invariant {Inv : σ → Prop} (hpreserved : ∀ s l s', step s l s' → Inv s → Inv s')
    {s s' : σ} {trace : List (Transition σ Label)} (h : Run step s trace s') (hs : Inv s) :
    Inv s' := by
  induction h with
  | refl s => exact hs
  | head hstep _ ih => exact ih (hpreserved _ _ _ hstep hs)

/-- What the steps that meet the condition preserve holds at the end of a run of such
steps. -/
theorem invariant_of {Inv : σ → Prop} {Cond : Transition σ Label → Prop}
    (hpreserved : ∀ s l s', step s l s' → Inv s → Cond ⟨s, l, s'⟩ → Inv s') {s s' : σ}
    {trace : List (Transition σ Label)} (h : Run step s trace s') (hs : Inv s)
    (hcond : ∀ t ∈ trace, Cond t) : Inv s' := by
  induction h with
  | refl s => exact hs
  | head hstep _ ih =>
    rw [List.forall_mem_cons] at hcond
    exact ih (hpreserved _ _ _ hstep hs hcond.1) hcond.2

/-- The transitions of a run are steps. -/
theorem step_of_mem {s s' : σ} {trace : List (Transition σ Label)} (h : Run step s trace s') :
    ∀ t ∈ trace, step t.source t.label t.target := by
  induction h with
  | refl s => simp
  | head hstep _ ih =>
    rw [List.forall_mem_cons]
    exact ⟨hstep, ih⟩

/-- What every step preserves holds before each step of a run. -/
theorem invariant_source {Inv : σ → Prop}
    (hpreserved : ∀ s l s', step s l s' → Inv s → Inv s') {s s' : σ}
    {trace : List (Transition σ Label)} (h : Run step s trace s') (hs : Inv s) :
    ∀ t ∈ trace, Inv t.source ∧ step t.source t.label t.target := by
  induction h with
  | refl s => simp
  | head hstep _ ih =>
    intro t ht
    rcases List.mem_cons.mp ht with rfl | ht
    · exact ⟨hs, hstep⟩
    · exact ih (hpreserved _ _ _ hstep hs) t ht

/-- What holds at the start and is kept by each step, given the transitions before it,
holds at the end of a run. -/
theorem invariant_trace {Inv : List (Transition σ Label) → σ → Prop} {s s' : σ}
    {trace : List (Transition σ Label)} (h : Run step s trace s') (hs : Inv [] s)
    (hpreserved : ∀ before t after, trace = before ++ t :: after →
      step t.source t.label t.target → Inv before t.source → Inv (before ++ [t]) t.target) :
    Inv trace s' := by
  induction trace using List.reverseRecOn generalizing s' with
  | nil =>
    rw [← h.eq_of_nil]
    exact hs
  | append_singleton before last ih =>
    obtain ⟨hbefore, hstep, hend⟩ := h.split_step
    rw [← hend.eq_of_nil]
    refine hpreserved before last [] rfl hstep (ih hbefore fun first t rest htrace => ?_)
    exact hpreserved first t (rest ++ [last]) (by simp [htrace])

/-- What holds at the start and is kept by each step, given the transitions before it,
holds before every step. -/
theorem invariant_before {Inv : List (Transition σ Label) → σ → Prop} {s s' : σ}
    {trace : List (Transition σ Label)} (h : Run step s trace s') (hs : Inv [] s)
    (hpreserved : ∀ before t after, trace = before ++ t :: after →
      step t.source t.label t.target → Inv before t.source → Inv (before ++ [t]) t.target)
    (before : List (Transition σ Label)) (t : Transition σ Label)
    (after : List (Transition σ Label)) (htrace : trace = before ++ t :: after) :
    Inv before t.source := by
  subst htrace
  obtain ⟨hbefore, -, -⟩ := h.split_step
  refine hbefore.invariant_trace hs fun first u rest hsplit => ?_
  exact hpreserved first u (rest ++ t :: after) (by simp [hsplit])

/-- All steps of a run are good, when they all meet the condition. -/
theorem forall_of {Inv : σ → Prop} {Good Cond : Transition σ Label → Prop}
    (hgood : ∀ s l s', step s l s' → Inv s → Cond ⟨s, l, s'⟩ → Good ⟨s, l, s'⟩ ∧ Inv s')
    {s s' : σ} {trace : List (Transition σ Label)} (h : Run step s trace s') (hs : Inv s)
    (hcond : ∀ t ∈ trace, Cond t) : ∀ t ∈ trace, Good t := by
  induction h with
  | refl s => simp
  | @head s s₁ s' l rest hstep _ ih =>
    rw [List.forall_mem_cons] at hcond ⊢
    obtain ⟨hfirst, hs₁⟩ := hgood _ _ _ hstep hs hcond.1
    exact ⟨hfirst, ih hs₁ hcond.2⟩

/-- If every step of a kind lowers a measure and no step raises it, a run has no more steps
of the kind than the measure says. -/
theorem count_le (measure : σ → ℕ) (kind : Label → Bool)
    (hstep : ∀ s l s', step s l s' → measure s' + (kind l).toNat ≤ measure s) {s s' : σ}
    {trace : List (Transition σ Label)} (h : Run step s trace s') :
    (trace.countP fun t => kind t.label) + measure s' ≤ measure s := by
  induction h with
  | refl s => simp
  | @head s s₁ s' l rest hfirst _ ih =>
    have hmeasure := hstep s l s₁ hfirst
    rw [List.countP_cons]
    cases hkind : kind l <;> simp only [hkind, Bool.toNat_true, Bool.toNat_false] at hmeasure ⊢
    · simp only [Bool.false_eq_true, if_false]
      omega
    · simp only [if_true]
      omega

/-- If related states take related steps under the same label, a run has a related run with
the same labels. -/
theorem simulates {τ : Type} {step' : τ → Label → τ → Prop} {R : σ → τ → Prop}
    (hsimulates : ∀ s l s₁ t, step s l s₁ → R s t → ∃ t₁, step' t l t₁ ∧ R s₁ t₁) {s s' : σ}
    {trace : List (Transition σ Label)} (h : Run step s trace s') {t : τ} (ht : R s t) :
    ∃ trace' t', Run step' t trace' t' ∧
      trace'.map Transition.label = trace.map Transition.label ∧ R s' t' := by
  induction h generalizing t with
  | refl s => exact ⟨[], t, .refl t, rfl, ht⟩
  | @head s s₁ s' l rest hstep _ ih =>
    obtain ⟨t₁, hfirst, ht₁⟩ := hsimulates s l s₁ t hstep ht
    obtain ⟨trace', t', hrest, hlabels, ht'⟩ := ih ht₁
    refine ⟨_, t', .head hfirst hrest, ?_, ht'⟩
    rw [List.map_cons, List.map_cons, hlabels]

/-- The labels that are seen of a run. -/
def seen {Act : Type} (trace : List (Transition σ (Option Act))) : List Act :=
  trace.filterMap Transition.label

/-- If each step is matched by a run on which the same is seen, so is a run. -/
theorem simulates_seen {τ Act : Type} {step : σ → Option Act → σ → Prop}
    {step' : τ → Option Act → τ → Prop} {R : σ → τ → Prop}
    (hsimulates : ∀ s l s₁ t, step s l s₁ → R s t →
      ∃ trace t₁, Run step' t trace t₁ ∧ seen trace = l.toList ∧ R s₁ t₁) {s s' : σ}
    {trace : List (Transition σ (Option Act))} (h : Run step s trace s') {t : τ} (ht : R s t) :
    ∃ trace' t', Run step' t trace' t' ∧ seen trace' = seen trace ∧ R s' t' := by
  induction h generalizing t with
  | refl s => exact ⟨[], t, .refl t, rfl, ht⟩
  | @head s s₁ s' l rest hstep _ ih =>
    obtain ⟨first, t₁, hfirst, hlabel, ht₁⟩ := hsimulates s l s₁ t hstep ht
    obtain ⟨later, t', hlater, hlabels, ht'⟩ := ih ht₁
    refine ⟨first ++ later, t', hfirst.trans hlater, ?_, ht'⟩
    simp only [seen, List.filterMap_append, List.filterMap_cons] at hlabel hlabels ⊢
    rw [hlabel, hlabels]
    cases l <;> rfl

end Run

end Lib
