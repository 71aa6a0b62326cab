import StorageEngine.Lib.Remote
import Mathlib.Logic.Relation

/-!
# Programs that run at the same time

Any number of programs share a served state.  Each has a label, which says what
it is for.  A step serves one call of one program, and a call whose caller has
given up can still be served later.

`Safe` is the rely-guarantee rule for such programs.  A `Discipline` has the
invariant of the state and says what the programs may do to the state between
two steps of one of them.  A program is safe when each of its calls respects the
discipline, whatever the others have done in between.  `Reachable.safe` is the
conclusion: if every program is safe at its start, every reachable configuration
is valid and every program in it is still safe.

`reachable_congr` compares two servers: if they serve the calls of the programs
alike, they have the same runs.
-/

namespace Lib.Remote

variable {Call : Type} {Reply : Call → Type} {σ Label α β : Type}

/-- The rules for programs that share a state. -/
structure Discipline (σ : Type) where
  /-- What holds of the state at every time. -/
  valid : σ → Prop
  /-- What can become of a state. -/
  grows : σ → σ → Prop
  refl : ∀ s, grows s s
  trans : ∀ {s₁ s₂ s₃}, grows s₁ s₂ → grows s₂ s₃ → grows s₁ s₃

/-- What the program does respects the discipline, and its value satisfies `post`,
from any state that the others can make of `s`. -/
inductive Safe (d : Discipline σ) (serve : (q : Call) → σ → Option (Reply q) → σ → Prop)
    (post : α → σ → Prop) : Prog Call Reply α → σ → Prop where
  | done {a : α} {s : σ} (hpost : ∀ s', d.valid s' → d.grows s s' → post a s') :
      Safe d serve post (.done a) s
  | call {q : Call} {next : Option (Reply q) → Prog Call Reply α} {s : σ}
      (hserve : ∀ s₁ r s₂, d.valid s₁ → d.grows s s₁ → serve q s₁ r s₂ →
        d.valid s₂ ∧ d.grows s₁ s₂)
      (hanswer : ∀ s₁ r s₂, d.valid s₁ → d.grows s s₁ → serve q s₁ r s₂ →
        Safe d serve post (next r) s₂)
      (hfail : ∀ s₁, d.valid s₁ → d.grows s s₁ → Safe d serve post (next none) s₁) :
      Safe d serve post (.call q next) s

section Rules

variable {d : Discipline σ} {serve : (q : Call) → σ → Option (Reply q) → σ → Prop}
  {post : α → σ → Prop}

/-- A safe program is still safe after a step of another. -/
theorem Safe.mono {p : Prog Call Reply α} {s s' : σ} (h : Safe d serve post p s)
    (hgrows : d.grows s s') : Safe d serve post p s' := by
  cases h with
  | done hpost => exact .done fun s₁ hvalid h => hpost s₁ hvalid (d.trans hgrows h)
  | call hserve hanswer hfail =>
    exact .call (fun s₁ r s₂ hvalid h => hserve s₁ r s₂ hvalid (d.trans hgrows h))
      (fun s₁ r s₂ hvalid h => hanswer s₁ r s₂ hvalid (d.trans hgrows h))
      (fun s₁ hvalid h => hfail s₁ hvalid (d.trans hgrows h))

theorem Safe.imp {p : Prog Call Reply α} {post' : α → σ → Prop} {s : σ}
    (h : Safe d serve post p s) (hpost : ∀ a s, post a s → post' a s) :
    Safe d serve post' p s := by
  induction h with
  | done h => exact .done fun s' hvalid hgrows => hpost _ s' (h s' hvalid hgrows)
  | call hserve _ _ ihanswer ihfail => exact .call hserve ihanswer ihfail

/-- A sequence is safe when its first part is, and its second part is safe for
every value that the first can have. -/
theorem Safe.bind {p : Prog Call Reply α} {f : α → Prog Call Reply β}
    {post' : β → σ → Prop} {s : σ} (hp : Safe d serve post p s) (hvalid : d.valid s)
    (hf : ∀ a s', d.valid s' → d.grows s s' → post a s' → Safe d serve post' (f a) s') :
    Safe d serve post' (p >>= f) s := by
  induction hp with
  | done hpost => exact hf _ _ hvalid (d.refl _) (hpost _ hvalid (d.refl _))
  | call hserve _ _ ihanswer ihfail =>
    refine .call hserve (fun s₁ r s₂ hvalid₁ hgrows hcall => ?_)
      (fun s₁ hvalid₁ hgrows => ?_)
    · obtain ⟨hvalid₂, hgrows₂⟩ := hserve s₁ r s₂ hvalid₁ hgrows hcall
      exact ihanswer s₁ r s₂ hvalid₁ hgrows hcall hvalid₂ fun a s' hvalid' hgrows' =>
        hf a s' hvalid' (d.trans hgrows (d.trans hgrows₂ hgrows'))
    · exact ihfail s₁ hvalid₁ hgrows hvalid₁ fun a s' hvalid' hgrows' =>
        hf a s' hvalid' (d.trans hgrows hgrows')

end Rules

/-! ## Configurations -/

/-- The shared state, the programs that have been started, and the calls whose
callers have given up before they were served. -/
structure Config (Call : Type) (Reply : Call → Type) (σ Label α : Type) where
  state : σ
  running : List (Label × Prog Call Reply α) := []
  late : List (Label × Call) := []

/-- One step: a program is started, one call of one program is made, a call is
given up or served late, or the state changes by itself. -/
inductive Step (serve : Label → (q : Call) → σ → Option (Reply q) → σ → Prop)
    (program : Label → Prog Call Reply α) (changes : σ → σ → Prop) :
    Config Call Reply σ Label α → Config Call Reply σ Label α → Prop where
  | start (label : Label) (c : Config Call Reply σ Label α) :
      Step serve program changes c { c with running := (label, program label) :: c.running }
  | call {label : Label} {q : Call} {next : Option (Reply q) → Prog Call Reply α}
      {fate : Fate} {s s' : σ} {r : Option (Reply q)}
      {before after : List (Label × Prog Call Reply α)} {late : List (Label × Call)}
      (hcall : Delivers (serve label) q fate s r s') :
      Step serve program changes ⟨s, before ++ (label, .call q next) :: after, late⟩
        ⟨s', before ++ (label, next r) :: after, late⟩
  | giveUp {label : Label} {q : Call} {next : Option (Reply q) → Prog Call Reply α}
      {s : σ} {before after : List (Label × Prog Call Reply α)}
      {late : List (Label × Call)} :
      Step serve program changes ⟨s, before ++ (label, .call q next) :: after, late⟩
        ⟨s, before ++ (label, next none) :: after, (label, q) :: late⟩
  | serveLate {label : Label} {q : Call} {s s' : σ} {r : Option (Reply q)}
      {running : List (Label × Prog Call Reply α)} {before after : List (Label × Call)}
      (hserve : serve label q s r s') :
      Step serve program changes ⟨s, running, before ++ (label, q) :: after⟩
        ⟨s', running, before ++ after⟩
  | change {c : Config Call Reply σ Label α} {s' : σ} (hchange : changes c.state s') :
      Step serve program changes c { c with state := s' }

/-- The configurations of all runs from `s₀`. -/
def Reachable (serve : Label → (q : Call) → σ → Option (Reply q) → σ → Prop)
    (program : Label → Prog Call Reply α) (changes : σ → σ → Prop) (s₀ : σ)
    (c : Config Call Reply σ Label α) : Prop :=
  Relation.ReflTransGen (Step serve program changes) { state := s₀ } c

section SingleRuns

variable {serve : Label → (q : Call) → σ → Option (Reply q) → σ → Prop}
  {program : Label → Prog Call Reply α} {changes : σ → σ → Prop}

/-- The run of one program is made of steps. -/
theorem Runs.steps {label : Label} {p : Prog Call Reply α} {s s' : σ}
    {trace : List (Event Call Reply)} {a : α} (hrun : Runs (serve label) p s trace a s')
    (others : List (Label × Prog Call Reply α)) (late : List (Label × Call)) :
    Relation.ReflTransGen (Step serve program changes) ⟨s, (label, p) :: others, late⟩
      ⟨s', (label, .done a) :: others, late⟩ := by
  induction hrun with
  | done a s => exact .refl
  | @call q next fate s s₁ s' r trace a hcall _ ih =>
    have hstep : Step serve program changes ⟨s, (label, .call q next) :: others, late⟩
        ⟨s₁, (label, next r) :: others, late⟩ := @Step.call _ _ _ _ _ serve program changes
          label q next fate s s₁ r [] others late hcall
    exact .head hstep ih

/-- A program that is started and runs on its own. -/
theorem Reachable.run {s₀ : σ} {c : Config Call Reply σ Label α}
    (h : Reachable serve program changes s₀ c) {label : Label} {s' : σ}
    {trace : List (Event Call Reply)} {a : α}
    (hrun : Runs (serve label) (program label) c.state trace a s') :
    Reachable serve program changes s₀
      { c with state := s', running := (label, .done a) :: c.running } :=
  (h.tail (.start label c)).trans (hrun.steps c.running c.late)

end SingleRuns

section Soundness

variable {d : Discipline σ} {serve : Label → (q : Call) → σ → Option (Reply q) → σ → Prop}
  {post : Label → α → σ → Prop} {program : Label → Prog Call Reply α} {changes : σ → σ → Prop}

/-- The call respects the discipline from any state that `s` can become. -/
def SafeCall (d : Discipline σ) (serve : (q : Call) → σ → Option (Reply q) → σ → Prop)
    (q : Call) (s : σ) : Prop :=
  ∀ s₁ r s₂, d.valid s₁ → d.grows s s₁ → serve q s₁ r s₂ → d.valid s₂ ∧ d.grows s₁ s₂

theorem SafeCall.mono {serve : (q : Call) → σ → Option (Reply q) → σ → Prop} {q : Call}
    {s s' : σ} (h : SafeCall d serve q s) (hgrows : d.grows s s') : SafeCall d serve q s' :=
  fun s₁ r s₂ hvalid h' => h s₁ r s₂ hvalid (d.trans hgrows h')

/-- A program is safe when all the calls that it can make are. -/
theorem Safe.of_issues {serve : (q : Call) → σ → Option (Reply q) → σ → Prop}
    {p : Prog Call Reply α} {s : σ} (h : p.Issues fun q => SafeCall d serve q s) :
    Safe d serve (fun _ _ => True) p s := by
  have hlater : ∀ s', d.grows s s' → Safe d serve (fun _ _ => True) p s' := by
    induction h with
    | done a => exact fun s' _ => .done fun _ _ _ => trivial
    | call hq _ ih =>
      intro s' hgrows
      refine .call (hq.mono hgrows) (fun s₁ r s₂ hvalid hgrows₁ hserve => ?_)
        fun s₁ _ hgrows₁ => ih none s₁ (d.trans hgrows hgrows₁)
      have hgrows₂ := (hq s₁ r s₂ hvalid (d.trans hgrows hgrows₁) hserve).2
      exact ih r s₂ (d.trans hgrows (d.trans hgrows₁ hgrows₂))
  exact hlater s (d.refl s)

/-- The invariant of configurations. -/
structure SafeConfig (d : Discipline σ)
    (serve : Label → (q : Call) → σ → Option (Reply q) → σ → Prop)
    (post : Label → α → σ → Prop) (c : Config Call Reply σ Label α) : Prop where
  valid : d.valid c.state
  running : ∀ label p, (label, p) ∈ c.running → Safe d (serve label) (post label) p c.state
  late : ∀ label q, (label, q) ∈ c.late → SafeCall d (serve label) q c.state

theorem Delivers.respects {serve : (q : Call) → σ → Option (Reply q) → σ → Prop} {q : Call}
    {fate : Fate} {s s' : σ} {r : Option (Reply q)} (hcall : Delivers serve q fate s r s')
    (hsafe : SafeCall d serve q s) (hvalid : d.valid s) : d.valid s' ∧ d.grows s s' := by
  cases hcall with
  | answered h => exact hsafe s r s' hvalid (d.refl s) h
  | replyLost h => exact hsafe s _ s' hvalid (d.refl s) h
  | requestLost => exact ⟨hvalid, d.refl s⟩

/-- The continuation of a safe program is safe, whatever became of its call. -/
theorem Safe.next {serve : (q : Call) → σ → Option (Reply q) → σ → Prop}
    {post : α → σ → Prop} {q : Call} {next : Option (Reply q) → Prog Call Reply α}
    {fate : Fate} {s s' : σ} {r : Option (Reply q)} (h : Safe d serve post (.call q next) s)
    (hcall : Delivers serve q fate s r s') (hvalid : d.valid s) :
    Safe d serve post (next r) s' := by
  cases h with
  | call hserve hanswer hfail =>
    cases hcall with
    | answered hs => exact hanswer s r s' hvalid (d.refl s) hs
    | replyLost hs =>
      obtain ⟨hvalid', hgrows⟩ := hserve s _ s' hvalid (d.refl s) hs
      exact hfail s' hvalid' hgrows
    | requestLost => exact hfail s hvalid (d.refl s)

theorem Safe.safeCall {serve : (q : Call) → σ → Option (Reply q) → σ → Prop}
    {post : α → σ → Prop} {q : Call} {next : Option (Reply q) → Prog Call Reply α} {s : σ}
    (h : Safe d serve post (.call q next) s) : SafeCall d serve q s := by
  cases h with
  | call hserve _ _ => exact hserve

theorem SafeConfig.step
    (hprogram : ∀ label s, d.valid s → Safe d (serve label) (post label) (program label) s)
    (hchanges : ∀ s s', d.valid s → changes s s' → d.valid s' ∧ d.grows s s')
    {c c' : Config Call Reply σ Label α} (h : SafeConfig d serve post c)
    (hstep : Step serve program changes c c') : SafeConfig d serve post c' := by
  obtain ⟨hvalid, hrunning, hlate⟩ := h
  cases hstep with
  | start label _ =>
    refine ⟨hvalid, fun label' p hp => ?_, hlate⟩
    rcases List.mem_cons.mp hp with heq | hp
    · cases heq
      exact hprogram label _ hvalid
    · exact hrunning label' p hp
  | @call label q next fate s s' r before after late hcall =>
    have hsafe := hrunning label (.call q next) (by simp)
    obtain ⟨hvalid', hgrows⟩ := hcall.respects hsafe.safeCall hvalid
    refine ⟨hvalid', fun label' p hp => ?_, fun label' q' hq' => (hlate label' q' hq').mono hgrows⟩
    rcases List.mem_append.mp hp with hp | hp
    · exact (hrunning label' p (List.mem_append_left _ hp)).mono hgrows
    · rcases List.mem_cons.mp hp with heq | hp
      · cases heq
        exact hsafe.next hcall hvalid
      · exact (hrunning label' p (by simp [hp])).mono hgrows
  | @giveUp label q next s before after late =>
    have hsafe := hrunning label (.call q next) (by simp)
    refine ⟨hvalid, fun label' p hp => ?_, fun label' q' hq' => ?_⟩
    · rcases List.mem_append.mp hp with hp | hp
      · exact hrunning label' p (List.mem_append_left _ hp)
      · rcases List.mem_cons.mp hp with heq | hp
        · cases heq
          exact hsafe.next (.requestLost s) hvalid
        · exact hrunning label' p (by simp [hp])
    · rcases List.mem_cons.mp hq' with heq | hq'
      · cases heq
        exact hsafe.safeCall
      · exact hlate label' q' hq'
  | @serveLate label q s s' r running before after hserve =>
    obtain ⟨hvalid', hgrows⟩ := hlate label q (by simp) s r s' hvalid (d.refl s) hserve
    refine ⟨hvalid', fun label' p hp => (hrunning label' p hp).mono hgrows,
      fun label' q' hq' => (hlate label' q' ?_).mono hgrows⟩
    rcases List.mem_append.mp hq' with hq' | hq'
    · exact List.mem_append_left _ hq'
    · exact List.mem_append_right _ (List.mem_cons_of_mem _ hq')
  | change hchange =>
    obtain ⟨hvalid', hgrows⟩ := hchanges _ _ hvalid hchange
    exact ⟨hvalid', fun label p hp => (hrunning label p hp).mono hgrows,
      fun label q hq => (hlate label q hq).mono hgrows⟩

/-- Programs that are safe at their start are safe in every interleaving. -/
theorem Reachable.safe
    (hprogram : ∀ label s, d.valid s → Safe d (serve label) (post label) (program label) s)
    (hchanges : ∀ s s', d.valid s → changes s s' → d.valid s' ∧ d.grows s s')
    {s₀ : σ} (hvalid : d.valid s₀) {c : Config Call Reply σ Label α}
    (h : Reachable serve program changes s₀ c) : SafeConfig d serve post c := by
  induction h with
  | refl => exact ⟨hvalid, by simp, by simp⟩
  | tail _ hstep ih => exact ih.step hprogram hchanges hstep

/-- The value of a program that has ended satisfies its postcondition. -/
theorem SafeConfig.post_of_done {c : Config Call Reply σ Label α}
    (h : SafeConfig d serve post c) {label : Label} {a : α}
    (hdone : (label, Prog.done a) ∈ c.running) : post label a c.state := by
  cases h.running label _ hdone with
  | done hpost => exact hpost _ h.valid (d.refl _)

end Soundness

/-! ## Servers that agree -/

section Agreement

variable {serve serve' : Label → (q : Call) → σ → Option (Reply q) → σ → Prop}
  {program : Label → Prog Call Reply α} {changes : σ → σ → Prop} {allowed : Call → Prop}

/-- Only allowed calls are made and served late. -/
structure Agreed (allowed : Call → Prop) (c : Config Call Reply σ Label α) : Prop where
  running : ∀ label p, (label, p) ∈ c.running → p.Issues allowed
  late : ∀ label q, (label, q) ∈ c.late → allowed q

theorem Delivers.imp {serve serve' : (q : Call) → σ → Option (Reply q) → σ → Prop} {q : Call}
    {fate : Fate} {s s' : σ} {r : Option (Reply q)} (h : Delivers serve q fate s r s')
    (himp : ∀ {r s'}, serve q s r s' → serve' q s r s') : Delivers serve' q fate s r s' := by
  cases h with
  | answered hserve => exact .answered (himp hserve)
  | replyLost hserve => exact .replyLost (himp hserve)
  | requestLost => exact .requestLost s

/-- The program that has made an allowed call goes on with allowed calls. -/
theorem Agreed.next {label : Label} {q : Call} {next : Option (Reply q) → Prog Call Reply α}
    {s : σ} {before after : List (Label × Prog Call Reply α)} {late : List (Label × Call)}
    (h : Agreed allowed (⟨s, before ++ (label, .call q next) :: after, late⟩ :
      Config Call Reply σ Label α)) (r : Option (Reply q)) (s' : σ) :
    allowed q ∧ Agreed allowed (⟨s', before ++ (label, next r) :: after, late⟩ :
      Config Call Reply σ Label α) := by
  obtain ⟨hrunning, hlate⟩ := h
  cases hrunning label (.call q next) (by simp) with
  | call hq hnext =>
    refine ⟨hq, fun label' p hp => ?_, hlate⟩
    rcases List.mem_append.mp hp with hp | hp
    · exact hrunning label' p (List.mem_append_left _ hp)
    · rcases List.mem_cons.mp hp with heq | hp
      · cases heq
        exact hnext r
      · exact hrunning label' p (by simp [hp])

/-- A step with one server is a step with the other. -/
theorem Step.agreed (hprogram : ∀ label, (program label).Issues allowed)
    (hserve : ∀ {label q s r s'}, allowed q → serve label q s r s' → serve' label q s r s')
    {c c' : Config Call Reply σ Label α} (hstep : Step serve program changes c c')
    (h : Agreed allowed c) : Step serve' program changes c c' ∧ Agreed allowed c' := by
  cases hstep with
  | start label _ =>
    refine ⟨.start label c, fun label' p hp => ?_, h.late⟩
    rcases List.mem_cons.mp hp with heq | hp
    · cases heq
      exact hprogram label
    · exact h.running label' p hp
  | @call label q next fate s s' r before after late hcall =>
    obtain ⟨hq, hnext⟩ := h.next r s'
    exact ⟨.call (hcall.imp (hserve hq)), hnext⟩
  | @giveUp label q next s before after late =>
    obtain ⟨hq, hnext⟩ := h.next none s
    refine ⟨.giveUp, hnext.running, fun label' q' hq' => ?_⟩
    rcases List.mem_cons.mp hq' with heq | hq'
    · cases heq
      exact hq
    · exact h.late label' q' hq'
  | @serveLate label q s s' r running before after hserved =>
    refine ⟨.serveLate (hserve (h.late label q (by simp)) hserved), h.running,
      fun label' q' hq' => h.late label' q' ?_⟩
    rcases List.mem_append.mp hq' with hq' | hq'
    · exact List.mem_append_left _ hq'
    · exact List.mem_append_right _ (List.mem_cons_of_mem _ hq')
  | change hchange => exact ⟨.change hchange, h.running, h.late⟩

theorem Reachable.agreed (hprogram : ∀ label, (program label).Issues allowed)
    (hserve : ∀ {label q s r s'}, allowed q → serve label q s r s' → serve' label q s r s')
    {s₀ : σ} {c : Config Call Reply σ Label α} (h : Reachable serve program changes s₀ c) :
    Reachable serve' program changes s₀ c ∧ Agreed allowed c := by
  induction h with
  | refl => exact ⟨.refl, by simp, by simp⟩
  | tail _ hstep ih =>
    obtain ⟨hstep', hagreed⟩ := hstep.agreed hprogram hserve ih.2
    exact ⟨ih.1.tail hstep', hagreed⟩

/-- Programs do not tell servers apart that serve all their calls alike. -/
theorem reachable_congr (hprogram : ∀ label, (program label).Issues allowed)
    (hserve : ∀ {label q s r s'}, allowed q → (serve label q s r s' ↔ serve' label q s r s'))
    {s₀ : σ} {c : Config Call Reply σ Label α} :
    Reachable serve program changes s₀ c ↔ Reachable serve' program changes s₀ c := by
  constructor
  · intro h
    exact (h.agreed hprogram fun hq => (hserve hq).mp).1
  · intro h
    exact (h.agreed hprogram fun hq => (hserve hq).mpr).1

end Agreement

end Lib.Remote
