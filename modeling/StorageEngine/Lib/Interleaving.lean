import Mathlib.Logic.Function.Basic
import StorageEngine.Lib.Remote
import StorageEngine.Lib.Transition

/-!
# Programs that take turns

Each process has a program of its own, and a step of the system is one call of one
process.

* `Prog.Keeps` is a rule for the calls of one program, in terms of the calls that it has
  made before.
* `Run.keeps`: in every interleaving, each call of a process keeps the rule of its
  program.
* `Advances` is the run of one program to any of its calls, and `Advances.run` makes it a
  part of an interleaving.
-/

namespace Lib.Remote

variable {Call : Type} {Reply : Call → Type} {P σ α β : Type}

/-! ## The calls of one program -/

/-- After the calls of `history`, the program makes calls that the rule allows, and its
value satisfies `post`, whatever becomes of its calls. -/
inductive Prog.Keeps (rule : List (Event Call Reply) → Call → Prop)
    (post : α → List (Event Call Reply) → Prop) :
    List (Event Call Reply) → Prog Call Reply α → Prop where
  | done {history : List (Event Call Reply)} {a : α} (hpost : post a history) :
      Keeps rule post history (.done a)
  | call {history : List (Event Call Reply)} {q : Call}
      {next : Option (Reply q) → Prog Call Reply α} (hq : rule history q)
      (hnext : ∀ fate r, Keeps rule post (history ++ [⟨q, fate, r⟩]) (next r)) :
      Keeps rule post history (.call q next)

theorem Prog.Keeps.bind {rule : List (Event Call Reply) → Call → Prop}
    {post : α → List (Event Call Reply) → Prop} {post' : β → List (Event Call Reply) → Prop}
    {history : List (Event Call Reply)} {p : Prog Call Reply α} {f : α → Prog Call Reply β}
    (hp : Keeps rule post history p)
    (hf : ∀ a later, post a (history ++ later) → Keeps rule post' (history ++ later) (f a)) :
    Keeps rule post' history (p >>= f) := by
  generalize hstart : history = start at hp
  have hlater : ∃ later, start = history ++ later := ⟨[], by simp [hstart]⟩
  clear hstart
  induction hp with
  | done hpost =>
    obtain ⟨later, rfl⟩ := hlater
    exact hf _ later hpost
  | call hq _ ih =>
    obtain ⟨later, rfl⟩ := hlater
    exact .call hq fun fate r => ih fate r ⟨later ++ [⟨_, fate, r⟩], by simp⟩

theorem Prog.Keeps.imp {rule : List (Event Call Reply) → Call → Prop}
    {post post' : α → List (Event Call Reply) → Prop} {history : List (Event Call Reply)}
    {p : Prog Call Reply α} (hp : Keeps rule post history p)
    (hpost : ∀ a later, post a (history ++ later) → post' a (history ++ later)) :
    Keeps rule post' history p := by
  rw [← Prog.bind_done p]
  exact hp.bind fun a later h => .done (hpost a later h)

/-- Every program keeps the rule that allows all calls. -/
theorem Prog.keeps_all (p : Prog Call Reply α) (history : List (Event Call Reply)) :
    p.Keeps (fun _ _ => True) (fun _ _ => True) history := by
  induction p generalizing history with
  | done a => exact .done trivial
  | call q next ih => exact .call trivial fun fate r => ih r _

/-- A rule that does not look back at the calls before. -/
theorem Prog.Issues.keeps {allowed : Call → Prop} {p : Prog Call Reply α}
    (h : p.Issues allowed) {rule : List (Event Call Reply) → Call → Prop}
    (hrule : ∀ history q, allowed q → rule history q) (history : List (Event Call Reply)) :
    p.Keeps rule (fun _ _ => True) history := by
  induction h generalizing history with
  | done a => exact .done trivial
  | call hq _ ih => exact .call (hrule history _ hq) fun fate r => ih r _

/-- A rule that allows only some calls, whatever the calls before were. -/
theorem Prog.Keeps.issues {rule : List (Event Call Reply) → Call → Prop}
    {post : α → List (Event Call Reply) → Prop} {history : List (Event Call Reply)}
    {p : Prog Call Reply α} (h : p.Keeps rule post history) {allowed : Call → Prop}
    (hrule : ∀ history q, rule history q → allowed q) : p.Issues allowed := by
  induction h with
  | done hpost => exact .done _
  | call hq _ ih => exact .call (hrule _ _ hq) fun r => ih .answered r

/-- A run of a program that keeps a rule ends as the rule promises. -/
theorem Runs.keeps {serve : (q : Call) → σ → Option (Reply q) → σ → Prop}
    {rule : List (Event Call Reply) → Call → Prop} {post : α → List (Event Call Reply) → Prop}
    {history trace : List (Event Call Reply)} {p : Prog Call Reply α} {s s' : σ} {a : α}
    (hrun : Runs serve p s trace a s') (hkeeps : p.Keeps rule post history) :
    post a (history ++ trace) := by
  induction hrun generalizing history with
  | done a s =>
    cases hkeeps with
    | done hpost => rwa [List.append_nil]
  | @call q next fate s s₁ s' r trace a hcall _ ih =>
    cases hkeeps with
    | call _ hnext => simpa using ih (hnext fate r)

/-! ## Interleavings -/

/-- The shared state, and what is left of the program of each process. -/
structure Threads (P Call : Type) (Reply : Call → Type) (σ α : Type) where
  state : σ
  programs : P → Prog Call Reply α

/-- One call of one process. -/
structure Action (P Call : Type) (Reply : Call → Type) where
  process : P
  event : Event Call Reply

variable [DecidableEq P] {serve : (q : Call) → σ → Option (Reply q) → σ → Prop}

/-- A process makes its next call. -/
inductive Threads.Step (serve : (q : Call) → σ → Option (Reply q) → σ → Prop) :
    Threads P Call Reply σ α → Action P Call Reply → Threads P Call Reply σ α → Prop where
  | call {t : Threads P Call Reply σ α} {p : P} {q : Call}
      {next : Option (Reply q) → Prog Call Reply α} {fate : Fate} {r : Option (Reply q)} {s' : σ}
      (hprogram : t.programs p = .call q next) (hcall : Delivers serve q fate t.state r s') :
      Step serve t ⟨p, ⟨q, fate, r⟩⟩ ⟨s', Function.update t.programs p (next r)⟩

/-- The calls of a process in a run. -/
def callsOf (p : P) (trace : List (Transition (Threads P Call Reply σ α) (Action P Call Reply))) :
    List (Event Call Reply) :=
  trace.filterMap fun t => if t.label.process = p then some t.label.event else none

theorem callsOf_append (p : P)
    (first rest : List (Transition (Threads P Call Reply σ α) (Action P Call Reply))) :
    callsOf p (first ++ rest) = callsOf p first ++ callsOf p rest :=
  List.filterMap_append

theorem mem_callsOf {p : P}
    {trace : List (Transition (Threads P Call Reply σ α) (Action P Call Reply))}
    {e : Event Call Reply} : e ∈ callsOf p trace ↔ ∃ t ∈ trace, t.label = ⟨p, e⟩ := by
  rw [callsOf, List.mem_filterMap]
  constructor
  · rintro ⟨t, ht, hlabel⟩
    split at hlabel
    · next hp =>
      cases hlabel
      exact ⟨t, ht, by rw [← hp]⟩
    · cases hlabel
  · rintro ⟨t, ht, hlabel⟩
    exact ⟨t, ht, by rw [hlabel, if_pos rfl]⟩

theorem Threads.Step.delivers {t t' : Threads P Call Reply σ α} {a : Action P Call Reply}
    (h : Step serve t a t') :
    Delivers serve a.event.request a.event.fate t.state a.event.reply t'.state := by
  cases h with
  | call _ hcall => exact hcall

/-- Every call of a process keeps the rule of its program, in every interleaving. -/
theorem Run.keeps {rule : P → List (Event Call Reply) → Call → Prop}
    {post : P → α → List (Event Call Reply) → Prop} {t t' : Threads P Call Reply σ α}
    {trace : List (Transition (Threads P Call Reply σ α) (Action P Call Reply))}
    (hrun : Run (Threads.Step serve) t trace t') (history : P → List (Event Call Reply))
    (hkeeps : ∀ p, (t.programs p).Keeps (rule p) (post p) (history p)) :
    ∀ before step after, trace = before ++ step :: after →
      rule step.label.process
        (history step.label.process ++ callsOf step.label.process before)
        step.label.event.request := by
  induction hrun generalizing history with
  | refl t =>
    intro before step after h
    simp at h
  | @head t a t₁ t' rest hstep _ ih =>
    intro before step after h
    cases hstep with
    | @call p q next fate r s' hprogram hcall =>
      have hp := hkeeps p
      rw [hprogram] at hp
      cases hp with
      | call hq hnext =>
        cases before with
        | nil =>
          rw [List.nil_append, List.cons.injEq] at h
          obtain ⟨rfl, -⟩ := h
          simpa [callsOf] using hq
        | cons first before =>
          rw [List.cons_append, List.cons.injEq] at h
          obtain ⟨rfl, hrest⟩ := h
          have hkeeps' : ∀ p', (Function.update t.programs p (next r) p').Keeps (rule p')
              (post p') (history p' ++ if p' = p then [⟨q, fate, r⟩] else []) := by
            intro p'
            by_cases hp' : p' = p
            · subst hp'
              rw [Function.update_self, if_pos rfl]
              exact hnext fate r
            · rw [Function.update_of_ne hp', if_neg hp', List.append_nil]
              exact hkeeps p'
          have hrule := ih _ hkeeps' before step after hrest
          rw [List.append_assoc] at hrule
          have hcalls : callsOf step.label.process
              (⟨t, ⟨p, ⟨q, fate, r⟩⟩, ⟨s', Function.update t.programs p (next r)⟩⟩ :: before) =
              (if step.label.process = p then [⟨q, fate, r⟩] else []) ++
                callsOf step.label.process before := by
            rw [callsOf, List.filterMap_cons]
            by_cases hp' : step.label.process = p
            · simp [hp', callsOf]
            · simp [hp', Ne.symm hp', callsOf]
          rw [hcalls]
          exact hrule

/-! ## Parts of an interleaving -/

/-- A run of a program until `p'` is left of it. -/
inductive Advances (serve : (q : Call) → σ → Option (Reply q) → σ → Prop) :
    Prog Call Reply α → σ → List (Event Call Reply) → Prog Call Reply α → σ → Prop where
  | refl (p : Prog Call Reply α) (s : σ) : Advances serve p s [] p s
  | call {q : Call} {next : Option (Reply q) → Prog Call Reply α} {fate : Fate} {s s₁ s' : σ}
      {r : Option (Reply q)} {rest : List (Event Call Reply)} {p' : Prog Call Reply α}
      (hcall : Delivers serve q fate s r s₁) (hrest : Advances serve (next r) s₁ rest p' s') :
      Advances serve (.call q next) s (⟨q, fate, r⟩ :: rest) p' s'

namespace Advances

variable {prog prog' prog'' : Prog Call Reply α} {s s₁ s' : σ}
  {events rest : List (Event Call Reply)}

theorem of_runs {a : α} (h : Runs serve prog s events a s') :
    Advances serve prog s events (.done a) s' := by
  induction h with
  | done a s => exact .refl _ _
  | call hcall _ ih => exact .call hcall ih

theorem trans (h : Advances serve prog s events prog' s₁)
    (h' : Advances serve prog' s₁ rest prog'' s') :
    Advances serve prog s (events ++ rest) prog'' s' := by
  induction h with
  | refl prog s => exact h'
  | call hcall _ ih => exact .call hcall (ih h')

/-- The first part of a sequence. -/
theorem bind (h : Advances serve prog s events prog' s') (f : α → Prog Call Reply β) :
    Advances serve (prog >>= f) s events (prog' >>= f) s' := by
  induction h with
  | refl prog s => exact .refl _ _
  | call hcall _ ih => exact .call hcall ih

/-- A part that ends, and what comes next. -/
theorem of_runs_bind {a : β} {first : Prog Call Reply β} {f : β → Prog Call Reply α}
    (h : Runs serve first s events a s₁) (h' : Advances serve (f a) s₁ rest prog' s') :
    Advances serve (first >>= f) s (events ++ rest) prog' s' :=
  ((of_runs h).bind f).trans h'

/-- A process can go so far while the others wait. -/
theorem run (h : Advances serve prog s events prog' s') (p : P)
    (programs : P → Prog Call Reply α) (hprogram : programs p = prog) : ∃ trace,
      Run (Threads.Step serve) ⟨s, programs⟩ trace ⟨s', Function.update programs p prog'⟩ ∧
        trace.map Transition.label = events.map fun e => ⟨p, e⟩ := by
  induction h generalizing programs with
  | refl prog s =>
    refine ⟨[], ?_, rfl⟩
    rw [← hprogram, Function.update_eq_self]
    exact .refl _
  | @call q next fate s s₁ s' r rest prog' hcall _ ih =>
    obtain ⟨trace, hrest, hlabels⟩ := ih _ (Function.update_self p (next r) programs)
    rw [Function.update_idem] at hrest
    exact ⟨_, .head (.call hprogram hcall) hrest, by rw [List.map_cons, hlabels, List.map_cons]⟩

/-- A process can go so far and make its next call. -/
theorem run_call {q : Call} {next : Option (Reply q) → Prog Call Reply α}
    (h : Advances serve prog s events (.call q next) s₁) (p : P)
    (programs : P → Prog Call Reply α) (hprogram : programs p = prog)
    {fate : Fate} {r : Option (Reply q)} (hcall : Delivers serve q fate s₁ r s') : ∃ trace last,
      Run (Threads.Step serve) ⟨s, programs⟩ (trace ++ [last])
          ⟨s', Function.update programs p (next r)⟩ ∧
        trace.map Transition.label = events.map (fun e => ⟨p, e⟩) ∧
        last.source.state = s₁ ∧ last.label = ⟨p, ⟨q, fate, r⟩⟩ ∧ last.target.state = s' := by
  obtain ⟨trace, hrun, hlabels⟩ := h.run p programs hprogram
  have hstep := Threads.Step.call (p := p)
    (t := ⟨s₁, Function.update programs p (.call q next)⟩) (Function.update_self _ _ _) hcall
  rw [Function.update_idem] at hstep
  exact ⟨trace, _, hrun.trans (.single hstep), hlabels, rfl, rfl, rfl⟩

end Advances

end Lib.Remote
