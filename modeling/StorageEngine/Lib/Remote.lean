import Mathlib.Data.List.Basic

/-!
# Programs that make remote calls

A program either ends with a value or makes a call and goes on with the reply.
A call can fail on the way, and the caller then sees no reply, whether or not
the other side served the request.

* `Prog` is the type of programs, a monad.
* `Runs` is the run of one program while nothing else happens.  A run has the
  trace of its calls and of what became of each.  `RunsIn` is a run with calls of one
  kind.
* `Issues` bounds the calls that a program makes.
-/

namespace Lib.Remote

/-- A program with calls in `Call`.  A reply of `none` is a failed call. -/
inductive Prog (Call : Type) (Reply : Call → Type) (α : Type) where
  | done (value : α)
  | call (request : Call) (next : Option (Reply request) → Prog Call Reply α)

namespace Prog

variable {Call : Type} {Reply : Call → Type} {α β : Type}

def bind (p : Prog Call Reply α) (f : α → Prog Call Reply β) : Prog Call Reply β :=
  match p with
  | .done a => f a
  | .call q next => .call q fun r => (next r).bind f

instance : Monad (Prog Call Reply) where
  pure := .done
  bind := bind

/-- One call, and its reply as the value. -/
def rpc (q : Call) : Prog Call Reply (Option (Reply q)) :=
  .call q .done

@[simp] theorem pure_eq (a : α) : (pure a : Prog Call Reply α) = .done a := rfl

@[simp] theorem done_bind (a : α) (f : α → Prog Call Reply β) :
    (Prog.done a : Prog Call Reply α) >>= f = f a := rfl

@[simp] theorem call_bind (q : Call) (next : Option (Reply q) → Prog Call Reply α)
    (f : α → Prog Call Reply β) : Prog.call q next >>= f = .call q fun r => next r >>= f :=
  rfl

@[simp] theorem rpc_bind (q : Call) (f : Option (Reply q) → Prog Call Reply β) :
    rpc q >>= f = .call q f := rfl

theorem bind_done (p : Prog Call Reply α) : (p >>= fun a => .done a) = p := by
  induction p with
  | done a => rfl
  | call q next ih => exact congrArg (Prog.call q) (funext ih)

/-- Every call that the program can make is in `allowed`. -/
inductive Issues (allowed : Call → Prop) : Prog Call Reply α → Prop where
  | done (a : α) : Issues allowed (.done a)
  | call {q : Call} {next : Option (Reply q) → Prog Call Reply α} (hq : allowed q)
      (hnext : ∀ r, Issues allowed (next r)) : Issues allowed (.call q next)

theorem Issues.imp {allowed allowed' : Call → Prop} {p : Prog Call Reply α}
    (hp : Issues allowed p) (h : ∀ q, allowed q → allowed' q) : Issues allowed' p := by
  induction hp with
  | done a => exact .done a
  | call hq _ ih => exact .call (h _ hq) ih

theorem Issues.bind {allowed : Call → Prop} {p : Prog Call Reply α}
    {f : α → Prog Call Reply β} (hp : Issues allowed p) (hf : ∀ a, Issues allowed (f a)) :
    Issues allowed (p >>= f) := by
  induction hp with
  | done a => exact hf a
  | call hq _ ih => exact .call hq ih

/-- The calls of a program are calls of any program that starts with it. -/
theorem Issues.of_bind {allowed : Call → Prop} {p : Prog Call Reply α}
    {f : α → Prog Call Reply β} (h : Issues allowed (p >>= f)) : Issues allowed p := by
  induction p with
  | done a => exact .done a
  | call q next ih =>
    cases h with
    | call hq hnext => exact .call hq fun r => ih r (hnext r)

end Prog

/-! ## One program on its own -/

/-- What becomes of a call. -/
inductive Fate where
  | answered
  | replyLost
  | requestLost
  deriving DecidableEq, Repr

section Runs

variable {Call : Type} {Reply : Call → Type} {σ α β : Type}

/-- `Delivers serve q fate s r s'`: the call `q` with that fate takes the served
state from `s` to `s'`, and its caller sees `r`.  A request that is served can
still fail, which is a served reply of `none`. -/
inductive Delivers (serve : (q : Call) → σ → Option (Reply q) → σ → Prop) (q : Call) :
    Fate → σ → Option (Reply q) → σ → Prop where
  | answered {s s' : σ} {r : Option (Reply q)} (h : serve q s r s') :
      Delivers serve q .answered s r s'
  | replyLost {s s' : σ} {r : Option (Reply q)} (h : serve q s r s') :
      Delivers serve q .replyLost s none s'
  | requestLost (s : σ) : Delivers serve q .requestLost s none s

/-- Only an answered call has a reply. -/
theorem Delivers.answered_of_reply {serve : (q : Call) → σ → Option (Reply q) → σ → Prop}
    {q : Call} {fate : Fate} {s s' : σ} {r : Option (Reply q)} (h : Delivers serve q fate s r s')
    (hr : r ≠ none) : fate = .answered := by
  cases h with
  | answered => rfl
  | replyLost => exact absurd rfl hr
  | requestLost => exact absurd rfl hr

/-- An answered call has been served. -/
theorem Delivers.served {serve : (q : Call) → σ → Option (Reply q) → σ → Prop} {q : Call}
    {s s' : σ} {r : Option (Reply q)} (h : Delivers serve q .answered s r s') : serve q s r s' := by
  cases h with
  | answered hserves => exact hserves

/-- One call of a run. -/
structure Event (Call : Type) (Reply : Call → Type) where
  request : Call
  fate : Fate
  reply : Option (Reply request)

/-- A run of a program to its value, with the trace of its calls. -/
inductive Runs (serve : (q : Call) → σ → Option (Reply q) → σ → Prop) :
    Prog Call Reply α → σ → List (Event Call Reply) → α → σ → Prop where
  | done (a : α) (s : σ) : Runs serve (.done a) s [] a s
  | call {q : Call} {next : Option (Reply q) → Prog Call Reply α} {fate : Fate}
      {s s₁ s' : σ} {r : Option (Reply q)} {trace : List (Event Call Reply)} {a : α}
      (hcall : Delivers serve q fate s r s₁) (hrest : Runs serve (next r) s₁ trace a s') :
      Runs serve (.call q next) s (⟨q, fate, r⟩ :: trace) a s'

variable {serve : (q : Call) → σ → Option (Reply q) → σ → Prop}

theorem runs_done {a b : α} {s s' : σ} {trace : List (Event Call Reply)} :
    Runs serve (.done a) s trace b s' ↔ trace = [] ∧ b = a ∧ s' = s := by
  constructor
  · rintro ⟨⟩
    exact ⟨rfl, rfl, rfl⟩
  · rintro ⟨rfl, rfl, rfl⟩
    exact .done _ _

theorem runs_call {q : Call} {next : Option (Reply q) → Prog Call Reply α} {s s' : σ}
    {trace : List (Event Call Reply)} {a : α} :
    Runs serve (.call q next) s trace a s' ↔
      ∃ fate r s₁ rest, Delivers serve q fate s r s₁ ∧ Runs serve (next r) s₁ rest a s' ∧
        trace = ⟨q, fate, r⟩ :: rest := by
  constructor
  · rintro ⟨⟩
    next hcall hrest => exact ⟨_, _, _, _, hcall, hrest, rfl⟩
  · rintro ⟨fate, r, s₁, rest, hcall, hrest, rfl⟩
    exact .call hcall hrest

/-- A run that starts with a call. -/
theorem runs_rpc {q : Call} {f : Option (Reply q) → Prog Call Reply β} {s s' : σ}
    {trace : List (Event Call Reply)} {b : β} :
    Runs serve (Prog.rpc q >>= f) s trace b s' ↔
      ∃ fate r s₁ rest, Delivers serve q fate s r s₁ ∧ Runs serve (f r) s₁ rest b s' ∧
        trace = ⟨q, fate, r⟩ :: rest :=
  runs_call

/-- A run of a sequence is a run of each part. -/
theorem runs_bind {p : Prog Call Reply α} {f : α → Prog Call Reply β} {s s' : σ}
    {trace : List (Event Call Reply)} {b : β} :
    Runs serve (p >>= f) s trace b s' ↔
      ∃ a s₁ first rest, Runs serve p s first a s₁ ∧ Runs serve (f a) s₁ rest b s' ∧
        trace = first ++ rest := by
  constructor
  · intro h
    induction p generalizing s trace with
    | done a => exact ⟨a, s, [], trace, .done a s, h, rfl⟩
    | call q next ih =>
      obtain ⟨fate, r, s₁, rest, hcall, hrest, rfl⟩ := runs_call.mp h
      obtain ⟨a, s₂, first, last, hfirst, hlast, rfl⟩ := ih r hrest
      exact ⟨a, s₂, _, last, .call hcall hfirst, hlast, rfl⟩
  · rintro ⟨a, s₁, first, rest, hfirst, hrest, rfl⟩
    induction hfirst with
    | done a s => exact hrest
    | call hcall _ ih => exact .call hcall (ih hrest)

/-- Any program has a run in which all its requests are lost. -/
theorem exists_runs_lost (serve : (q : Call) → σ → Option (Reply q) → σ → Prop)
    (p : Prog Call Reply α) (s : σ) :
    ∃ trace a, Runs serve p s trace a s ∧ ∀ e ∈ trace, e.fate = .requestLost := by
  induction p with
  | done a => exact ⟨[], a, .done a s, by simp⟩
  | call q next ih =>
    obtain ⟨trace, a, hrun, hlost⟩ := ih none
    exact ⟨_, a, .call (.requestLost s) hrun, List.forall_mem_cons.mpr ⟨rfl, hlost⟩⟩

/-! ### Runs with calls of one kind -/

section RunsIn

variable {P : Event Call Reply → Prop}

/-- The program has a run to the value `a` and the state `s'` in which all calls meet `P`. -/
def RunsIn (serve : (q : Call) → σ → Option (Reply q) → σ → Prop)
    (P : Event Call Reply → Prop) (p : Prog Call Reply α) (s : σ) (a : α) (s' : σ) : Prop :=
  ∃ trace, Runs serve p s trace a s' ∧ ∀ e ∈ trace, P e

theorem runsIn_done {a b : α} {s s' : σ} :
    RunsIn serve P (.done a) s b s' ↔ b = a ∧ s' = s := by
  constructor
  · intro h
    obtain ⟨trace, hrun, -⟩ := h
    exact (runs_done.mp hrun).2
  · intro h
    refine ⟨[], runs_done.mpr ⟨rfl, h⟩, ?_⟩
    simp

theorem runsIn_rpc {q : Call} {f : Option (Reply q) → Prog Call Reply β} {s s' : σ} {b : β} :
    RunsIn serve P (Prog.rpc q >>= f) s b s' ↔
      ∃ fate r s₁, Delivers serve q fate s r s₁ ∧ P ⟨q, fate, r⟩ ∧
        RunsIn serve P (f r) s₁ b s' := by
  constructor
  · intro h
    obtain ⟨trace, hrun, hall⟩ := h
    obtain ⟨fate, r, s₁, rest, hcall, hrest, rfl⟩ := runs_rpc.mp hrun
    rw [List.forall_mem_cons] at hall
    exact ⟨fate, r, s₁, hcall, hall.1, rest, hrest, hall.2⟩
  · intro h
    obtain ⟨fate, r, s₁, hcall, hfirst, rest, hrest, hall⟩ := h
    exact ⟨_, runs_rpc.mpr ⟨fate, r, s₁, rest, hcall, hrest, rfl⟩,
      List.forall_mem_cons.mpr ⟨hfirst, hall⟩⟩

theorem runsIn_bind {p : Prog Call Reply α} {f : α → Prog Call Reply β} {s s' : σ} {b : β} :
    RunsIn serve P (p >>= f) s b s' ↔
      ∃ a s₁, RunsIn serve P p s a s₁ ∧ RunsIn serve P (f a) s₁ b s' := by
  constructor
  · intro h
    obtain ⟨trace, hrun, hall⟩ := h
    obtain ⟨a, s₁, first, rest, hfirst, hrest, rfl⟩ := runs_bind.mp hrun
    rw [List.forall_mem_append] at hall
    exact ⟨a, s₁, ⟨first, hfirst, hall.1⟩, rest, hrest, hall.2⟩
  · intro h
    obtain ⟨a, s₁, ⟨first, hfirst, hall⟩, rest, hrest, hall'⟩ := h
    exact ⟨_, runs_bind.mpr ⟨a, s₁, first, rest, hfirst, hrest, rfl⟩,
      List.forall_mem_append.mpr ⟨hall, hall'⟩⟩

/-- A call that has one outcome only. -/
theorem runsIn_rpc_of_unique {q : Call} {f : Option (Reply q) → Prog Call Reply β} {s s₁ s' : σ}
    {r : Option (Reply q)} {b : β} {fate : Fate} (hcall : Delivers serve q fate s r s₁)
    (hfate : P ⟨q, fate, r⟩)
    (hunique : ∀ fate' r' s₂, Delivers serve q fate' s r' s₂ → P ⟨q, fate', r'⟩ →
      r' = r ∧ s₂ = s₁) :
    RunsIn serve P (Prog.rpc q >>= f) s b s' ↔ RunsIn serve P (f r) s₁ b s' := by
  rw [runsIn_rpc]
  constructor
  · intro h
    obtain ⟨fate', r', s₂, hcall', hfate', hrest⟩ := h
    obtain ⟨rfl, rfl⟩ := hunique fate' r' s₂ hcall' hfate'
    exact hrest
  · intro h
    exact ⟨fate, r, s₁, hcall, hfate, h⟩

end RunsIn

/-- The trace of a run has calls of the program only. -/
theorem Runs.trace_allowed {allowed : Call → Prop} {p : Prog Call Reply α} {s s' : σ}
    {trace : List (Event Call Reply)} {a : α} (hrun : Runs serve p s trace a s')
    (hissues : p.Issues allowed) : ∀ e ∈ trace, allowed e.request := by
  induction hrun with
  | done a s => simp
  | call _ _ ih =>
    cases hissues with
    | call hq hnext =>
      intro e he
      rcases List.mem_cons.mp he with rfl | he
      · exact hq
      · exact ih (hnext _) e he

/-- The calls in the trace of a run have been delivered. -/
theorem Runs.delivered {p : Prog Call Reply α} {s s' : σ} {trace : List (Event Call Reply)}
    {a : α} (hrun : Runs serve p s trace a s') :
    ∀ e ∈ trace, ∃ s₁ s₂, Delivers serve e.request e.fate s₁ e.reply s₂ := by
  induction hrun with
  | done a s => simp
  | call hcall _ ih =>
    rw [List.forall_mem_cons]
    exact ⟨⟨_, _, hcall⟩, ih⟩

/-- What every allowed call keeps, a run keeps. -/
theorem Runs.invariant {allowed : Call → Prop} {I : σ → Prop}
    (hstep : ∀ {q fate r s s'}, allowed q → Delivers serve q fate s r s' → I s → I s')
    {p : Prog Call Reply α} {s s' : σ} {trace : List (Event Call Reply)} {a : α}
    (hrun : Runs serve p s trace a s') (hissues : p.Issues allowed) (hs : I s) : I s' := by
  induction hrun with
  | done a s => exact hs
  | call hcall _ ih =>
    cases hissues with
    | call hq hnext => exact ih (hnext _) (hstep hq hcall hs)

/-- The replies in the trace of a run are those that are served. -/
theorem Runs.trace_served {P : (q : Call) → Reply q → Prop}
    (hserve : ∀ q s r s', serve q s (some r) s' → P q r) {p : Prog Call Reply α} {s s' : σ}
    {trace : List (Event Call Reply)} {a : α} (hrun : Runs serve p s trace a s') :
    ∀ e ∈ trace, ∀ r, e.reply = some r → P e.request r := by
  induction hrun with
  | done a s => simp
  | call hcall _ ih =>
    intro e he r hr
    rcases List.mem_cons.mp he with rfl | he
    · cases hcall with
      | answered h =>
        simp only at hr
        rw [hr] at h
        exact hserve _ _ _ _ h
      | replyLost h => cases hr
      | requestLost => cases hr
    · exact ih e he r hr

end Runs

end Lib.Remote
