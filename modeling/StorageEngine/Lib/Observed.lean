import StorageEngine.Lib.Remote

/-!
# Runs of which only some calls are seen

Two programs that try different calls can still do the same, if the calls in which they
differ come to nothing.  `Observed` forgets the calls of a run that are not `seen`, so that
such programs have the same observations.
-/

namespace Lib.Remote

variable {Call : Type} {Reply : Call → Type} {σ α β : Type}
  {serve : (q : Call) → σ → Option (Reply q) → σ → Prop} {seen : Event Call Reply → Bool}

/-- The program has a run of which these are the calls that are seen. -/
def Observed (serve : (q : Call) → σ → Option (Reply q) → σ → Prop)
    (seen : Event Call Reply → Bool) (p : Prog Call Reply α) (s : σ)
    (events : List (Event Call Reply)) (a : α) (s' : σ) : Prop :=
  ∃ trace, Runs serve p s trace a s' ∧ events = trace.filter seen

theorem observed_done {a b : α} {s s' : σ} {events : List (Event Call Reply)} :
    Observed serve seen (.done a) s events b s' ↔ events = [] ∧ b = a ∧ s' = s := by
  constructor
  · intro ⟨trace, hrun, hevents⟩
    obtain ⟨rfl, rfl, rfl⟩ := runs_done.mp hrun
    exact ⟨hevents, rfl, rfl⟩
  · intro ⟨hevents, hb, hs⟩
    exact ⟨[], runs_done.mpr ⟨rfl, hb, hs⟩, hevents⟩

/-- An observation that starts with a call. -/
theorem observed_rpc {q : Call} {f : Option (Reply q) → Prog Call Reply β} {s s' : σ}
    {events : List (Event Call Reply)} {b : β} :
    Observed serve seen (Prog.rpc q >>= f) s events b s' ↔
      ∃ fate r s₁ rest, Delivers serve q fate s r s₁ ∧ Observed serve seen (f r) s₁ rest b s' ∧
        events = if seen ⟨q, fate, r⟩ then ⟨q, fate, r⟩ :: rest else rest := by
  constructor
  · intro ⟨trace, hrun, hevents⟩
    obtain ⟨fate, r, s₁, rest, hcall, hrest, rfl⟩ := runs_rpc.mp hrun
    rw [List.filter_cons] at hevents
    exact ⟨fate, r, s₁, _, hcall, ⟨rest, hrest, rfl⟩, hevents⟩
  · intro ⟨fate, r, s₁, rest, hcall, ⟨trace, hrest, htrace⟩, hevents⟩
    refine ⟨_, runs_rpc.mpr ⟨fate, r, s₁, trace, hcall, hrest, rfl⟩, ?_⟩
    rw [List.filter_cons, ← htrace]
    exact hevents

/-- An observation that starts with a call that is seen. -/
theorem observed_rpc_seen {q : Call} {f : Option (Reply q) → Prog Call Reply β} {s s' : σ}
    {events : List (Event Call Reply)} {b : β} (hseen : ∀ fate r, seen ⟨q, fate, r⟩ = true) :
    Observed serve seen (Prog.rpc q >>= f) s events b s' ↔
      ∃ fate r s₁ rest, Delivers serve q fate s r s₁ ∧ Observed serve seen (f r) s₁ rest b s' ∧
        events = ⟨q, fate, r⟩ :: rest := by
  simp only [observed_rpc, hseen, if_true]

/-- An observation of a sequence is an observation of each part. -/
theorem observed_bind {p : Prog Call Reply α} {f : α → Prog Call Reply β} {s s' : σ}
    {events : List (Event Call Reply)} {b : β} :
    Observed serve seen (p >>= f) s events b s' ↔
      ∃ a s₁ first rest, Observed serve seen p s first a s₁ ∧
        Observed serve seen (f a) s₁ rest b s' ∧ events = first ++ rest := by
  constructor
  · intro ⟨trace, hrun, hevents⟩
    obtain ⟨a, s₁, first, rest, hfirst, hrest, rfl⟩ := runs_bind.mp hrun
    rw [List.filter_append] at hevents
    exact ⟨a, s₁, _, _, ⟨first, hfirst, rfl⟩, ⟨rest, hrest, rfl⟩, hevents⟩
  · intro ⟨a, s₁, first, rest, ⟨trace, hfirst, htrace⟩, ⟨trace', hrest, htrace'⟩, hevents⟩
    refine ⟨trace ++ trace', runs_bind.mpr ⟨a, s₁, trace, trace', hfirst, hrest, rfl⟩, ?_⟩
    rw [List.filter_append, ← htrace, ← htrace']
    exact hevents

/-- What is seen is among the calls that the program can make. -/
theorem Observed.allowed {allowed : Call → Prop} {p : Prog Call Reply α} {s s' : σ}
    {events : List (Event Call Reply)} {a : α} (h : Observed serve seen p s events a s')
    (hp : p.Issues allowed) : ∀ e ∈ events, allowed e.request := by
  intro e he
  obtain ⟨trace, hrun, rfl⟩ := h
  exact hrun.trace_allowed hp e (List.mem_filter.mp he).1

end Lib.Remote
