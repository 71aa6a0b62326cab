import StorageEngine.Coordinator.Leaders
import Mathlib.Data.List.Pairwise

/-!
# Generations

`AnnounceLeader` takes over the leader and the generation of an announcement
without a look at its own.  So a late announcement takes a coordinator back to an
older generation.  This module proves that the generations only grow as long as the
announcements are not late, the 64-bit counter does not wrap around, and no update of
a generation overtakes another one of the same coordinator.
-/

namespace StorageEngine.Coordinator

open Lib

variable {ι : Type}

/-- The step decreases no generation, and no announcement of a lower generation
replaces the leader. -/
structure KeepsGenerations (t : Transition (Config ι) (Event ι)) : Prop where
  generation : ∀ i, (t.source.state i).generation ≤ (t.target.state i).generation
  store : ∀ i, (t.source.state i).store.generation ≤ (t.target.state i).store.generation
  leader : ∀ j req, t.label = .announced j req →
    req.generation < (t.source.state j).generation →
      (t.target.state j).currentLeader = (t.source.state j).currentLeader

/-- The election is about to record the generation of its coordinator: an announcement
can overtake it. -/
def Stage.exposed : Stage ι → Bool
  | .loading | .recording _ => true
  | _ => false

/-- The thread is not overtaken when `generation_` is counted up to `generation`. -/
def Stage.Bears (generation : UInt64) : Stage ι → Prop
  | .recording _ => False
  | .following req | .adopting req => generation ≤ req.generation
  | _ => True

/-- The step delivers no announcement of a lower generation than that of its receiver,
does not count past the last generation, and overtakes no other thread. -/
def Fresh (t : Transition (Config ι) (Event ι)) : Prop :=
  match t.label with
  | .counted i =>
    (t.source.state i).generation.toNat + 1 < 2 ^ 64 ∧
      ∀ f ∈ t.source.threads.flatten, f.self = i →
        f.stage.Bears ((t.source.state i).generation + 1)
  | .announced j req =>
    (t.source.state j).generation ≤ req.generation ∧
      ∀ f ∈ t.source.threads.flatten, f.self = j → f.stage.exposed = false
  | _ => True

/-! ## The invariant -/

/-- What a thread knows of the generations of its coordinator. -/
def Stage.Knows (s : CoordinatorState) : Stage ι → Prop
  | .recording loaded => loaded = s.generation
  | .following req | .adopting req => s.generation ≤ req.generation
  | .confirming req => s.store.generation ≤ req.generation ∧ req.generation ≤ s.generation
  | _ => True

/-- Of two threads of one coordinator only one holds the mutex, and not while the other
one is exposed. -/
def Apart (f g : Frame ι) : Prop :=
  f.self = g.self →
    (f.stage.locked = true → g.stage.locked = false ∧ g.stage.exposed = false) ∧
      (g.stage.locked = true → f.stage.locked = false ∧ f.stage.exposed = false)

/-- The stores are not ahead, every thread knows the generations, and the threads keep
apart. -/
structure GenerationInv (c : Config ι) : Prop where
  behind : ∀ i, (c.state i).store.generation ≤ (c.state i).generation
  frames : ∀ f ∈ c.frames, f.stage.Knows (c.state f.self)
  apart : c.frames.Pairwise Apart

theorem generationInv_initial : GenerationInv (initial : Config ι) where
  behind _ := UInt64.le_refl _
  frames _ h := by cases h
  apart := List.Pairwise.nil

theorem Apart.symm {f g : Frame ι} (h : Apart f g) : Apart g f :=
  fun hself => (h hself.symm).symm

theorem Apart.of_perm {frames frames' : List (Frame ι)} (hperm : frames.Perm frames')
    (h : frames.Pairwise Apart) : frames'.Pairwise Apart :=
  (hperm.pairwise_iff Apart.symm).mp h

/-- The stages that neither hold the mutex nor are exposed. -/
def Stage.calm (stage : Stage ι) : Bool :=
  !stage.locked && !stage.exposed

theorem Apart.of_calm {f : Frame ι} (hf : f.stage.calm = true) (g : Frame ι) : Apart f g := by
  rw [Stage.calm, Bool.and_eq_true, Bool.not_eq_true', Bool.not_eq_true'] at hf
  intro _
  rw [hf.1]
  exact ⟨nofun, fun _ => ⟨rfl, hf.2⟩⟩

theorem Stage.Knows.of_calm {stage : Stage ι} (h : stage.calm = true) (s : CoordinatorState) :
    stage.Knows s := by
  cases stage with
  | asking | awaiting | claiming | counting | naming | loading | announcing => trivial
  | recording | following | adopting | confirming => cases h

theorem Stage.Knows.congr {stage : Stage ι} {s s' : CoordinatorState} (h : stage.Knows s)
    (hgeneration : s'.generation = s.generation)
    (hstore : s'.store.generation = s.store.generation) : stage.Knows s' := by
  cases stage with
  | asking | awaiting | claiming | counting | naming | loading | announcing => trivial
  | recording | following | adopting | confirming =>
    simpa only [Stage.Knows, hgeneration, hstore] using h

/-- A thread without the mutex does not know the store. -/
theorem Stage.Knows.unlocked {stage : Stage ι} {s s' : CoordinatorState} (h : stage.Knows s)
    (hlocked : stage.locked = false) (hgeneration : s'.generation = s.generation) :
    stage.Knows s' := by
  cases stage with
  | asking | awaiting | claiming | counting | naming | loading | announcing => trivial
  | recording => exact h.trans hgeneration.symm
  | following | adopting | confirming => cases hlocked

/-- A thread that is not overtaken by an increment. -/
theorem Stage.Knows.count {stage : Stage ι} {s : CoordinatorState} (h : stage.Knows s)
    (hbears : stage.Bears (s.generation + 1)) (hle : s.generation ≤ s.generation + 1) :
    stage.Knows { s with generation := s.generation + 1 } := by
  cases stage with
  | asking | awaiting | claiming | counting | naming | loading | announcing => trivial
  | recording => exact hbears.elim
  | following | adopting => exact hbears
  | confirming => exact ⟨h.1, UInt64.le_trans h.2 hle⟩

/-- A thread that counts the generations. -/
theorem le_count {generation : UInt64} (h : generation.toNat + 1 < 2 ^ 64) :
    generation ≤ generation + 1 := by
  rw [UInt64.le_iff_toNat_le, UInt64.toNat_add, UInt64.toNat_one, Nat.mod_eq_of_lt h]
  exact Nat.le_succ _

section Advance

variable {C : Coordinators ι} {i : ι} {s : CoordinatorState} {stage : Stage ι} {e : Effect ι}
  (hadvance : advance C i s stage = some e) (hknows : stage.Knows s)
  (hcount : stage = .counting → s.generation.toNat + 1 < 2 ^ 64)

include hadvance hknows hcount

/-- A step of a thread decreases no generation. -/
theorem advance_generations (hbehind : s.store.generation ≤ s.generation) :
    (s.generation ≤ e.state.generation ∧ s.store.generation ≤ e.state.store.generation) ∧
      e.state.store.generation ≤ e.state.generation ∧ ∀ next ∈ e.next, next.Knows e.state := by
  have hle := UInt64.le_refl s.generation
  have hstore := UInt64.le_refl s.store.generation
  cases advance_cases hadvance with
  | asked | refused | acked | claiming | naming | loading | announced | announcing =>
    exact ⟨⟨hle, hstore⟩, hbehind, by simp [Stage.Knows]⟩
  | counting =>
    have hnext := le_count (hcount rfl)
    exact ⟨⟨hnext, hstore⟩, UInt64.le_trans hbehind hnext, by simp [Stage.Knows]⟩
  | recording =>
    cases hknows
    exact ⟨⟨hle, hbehind⟩, hle, by simp [Stage.Knows]⟩
  | following => exact ⟨⟨hle, hstore⟩, hbehind, by simpa [Stage.Knows] using hknows⟩
  | adopting =>
    have hbound := UInt64.le_trans hbehind hknows
    refine ⟨⟨hknows, hstore⟩, hbound, ?_⟩
    simpa [Stage.Knows] using hbound
  | confirming => exact ⟨⟨hle, hknows.1⟩, hknows.2, by simp⟩

/-- Another thread of the coordinator. -/
theorem advance_apart {f : Frame ι} (hself : f.self = i) (hf : f.stage.Knows s)
    (hapart : Apart ⟨i, stage⟩ f)
    (hbears : stage = .counting → f.stage.Bears (s.generation + 1))
    (hmutex : stage = .naming → f.stage.locked = false) :
    f.stage.Knows e.state ∧ ∀ next ∈ e.next, Apart ⟨i, next⟩ f := by
  cases advance_cases hadvance with
  | asked | acked | announcing => exact ⟨hf, by rintro _ ⟨⟩; exact .of_calm rfl f⟩
  | refused | announced => exact ⟨hf, by rintro _ ⟨⟩⟩
  | claiming => exact ⟨hf.congr rfl rfl, by rintro _ ⟨⟩; exact .of_calm rfl f⟩
  | counting =>
    exact ⟨hf.count (hbears rfl) (le_count (hcount rfl)), by rintro _ ⟨⟩; exact .of_calm rfl f⟩
  | naming =>
    refine ⟨hf.congr rfl rfl, ?_⟩
    rintro _ ⟨⟩ -
    refine ⟨fun hloading => ?_, fun hlocked => ?_⟩
    · cases hloading
    · rw [hmutex rfl] at hlocked
      cases hlocked
  | loading => exact ⟨hf, by rintro _ ⟨⟩; exact hapart⟩
  | recording =>
    refine ⟨hf.unlocked ?_ rfl, by rintro _ ⟨⟩; exact .of_calm rfl f⟩
    -- the mutex is not held while an election records
    by_contra hlocked
    rw [Bool.not_eq_false] at hlocked
    cases ((hapart hself.symm).2 hlocked).2
  | following => exact ⟨hf.congr rfl rfl, by rintro _ ⟨⟩; exact hapart⟩
  | adopting =>
    obtain ⟨hlocked, hexposed⟩ := (hapart hself.symm).1 rfl
    exact ⟨.of_calm (by rw [Stage.calm, hlocked, hexposed]; rfl) _, by rintro _ ⟨⟩; exact hapart⟩
  | confirming =>
    obtain ⟨hlocked, hexposed⟩ := (hapart hself.symm).1 rfl
    exact ⟨.of_calm (by rw [Stage.calm, hlocked, hexposed]; rfl) _, by rintro _ ⟨⟩⟩

end Advance

/-! ## Moves -/

theorem started_calm {C : Coordinators ι} {j : ι} {starts : Bool} :
    ∀ f ∈ started C j starts, f.stage.calm = true := by
  intro f hf
  rw [started] at hf
  split at hf
  · rw [List.mem_singleton.mp hf]
    rfl
  · cases hf

theorem eventOf_ne_announced {i : ι} {stage : Stage ι} {next : Option (Stage ι)} (j : ι)
    (req : LeaderAnnounceRequest) : eventOf i stage next ≠ .announced j req := by
  cases stage <;> cases next <;> nofun

/-- The step has nothing to do with the generations. -/
structure Quiet (c c' : Config ι) (e : Event ι) : Prop where
  generation : ∀ i, (c'.state i).generation = (c.state i).generation
  store : ∀ i, (c'.state i).store.generation = (c.state i).store.generation
  event : ∀ j req, e ≠ .announced j req

theorem Quiet.of_state {c c' : Config ι} (h : c'.state = c.state) : Quiet c c' .other where
  generation _ := by rw [h]
  store _ := by rw [h]
  event _ _ := nofun

variable [DecidableEq ι] {C : Coordinators ι} {lossy : ι → ι → Prop}

/-- A step has nothing to do with the generations, or it is that of a thread that may
have, or the first step of an `AnnounceLeader`. -/
theorem move_cases {c c' : Config ι} {e : Event ι} {old new : List (Frame ι)}
    (h : Move C lossy c e old new c'.state c'.announcements) :
    (Quiet c c' e ∧ ∀ f ∈ new, f.stage.calm = true) ∨
      (∃ i stage effect, old = [⟨i, stage⟩] ∧ new = effect.next.toList.map (⟨i, ·⟩) ∧
        (stage = .naming → Unlocked c.threads i) ∧
        advance C i (c.state i) stage = some effect ∧ e = eventOf i stage effect.next ∧
        c'.state = Function.update c.state i effect.state) ∨
      ∃ j req, old = [] ∧ new = [⟨j, .following req⟩] ∧ Unlocked c.threads j ∧
        e = .announced j req ∧
        c'.state = Function.update c.state j
          { c.state j with currentLeader := req.leaderId } := by
  generalize hstate : c'.state = state at h
  generalize c'.announcements = announcements at h
  cases h with
  | begins i starts => exact .inl ⟨.of_state hstate, started_calm⟩
  | @advance i stage effect hmutex heffect =>
    exact .inr (.inl ⟨i, stage, effect, rfl, rfl, hmutex, heffect, rfl, rfl⟩)
  | @call i peer rest resp starts hserve =>
    refine .inl ⟨.of_state hstate, fun f hf => ?_⟩
    rcases List.mem_append.mp hf with hf | hf
    · exact started_calm f hf
    · rw [List.mem_singleton.mp hf]
      rfl
  | lose hlossy | giveUp hlossy =>
    exact .inl ⟨.of_state hstate, by simp [Stage.calm, Stage.locked, Stage.exposed]⟩
  | @announce j req hmessage hmutex =>
    exact .inr (.inr ⟨j, req, rfl, rfl, hmutex, rfl, rfl⟩)
  | serve i store hgeneration =>
    refine .inl ⟨⟨?_, ?_, fun _ _ => nofun⟩, nofun⟩
    · rw [hstate]
      exact (Function.forall_update_iff c.state fun j s =>
        s.generation = (c.state j).generation).mpr ⟨rfl, fun _ _ => rfl⟩
    · rw [hstate]
      exact (Function.forall_update_iff c.state fun j s =>
        s.store.generation = (c.state j).store.generation).mpr ⟨hgeneration, fun _ _ => rfl⟩

/-! ## Preservation -/

section Preservation

variable {c c' : Config ι} {e : Event ι} {old new rest : List (Frame ι)}
  (hold : c.frames.Perm (old ++ rest)) (hnew : c'.frames.Perm (new ++ rest))

include hold hnew

omit [DecidableEq ι] in
theorem GenerationInv.quiet (h : GenerationInv c) (hquiet : Quiet c c' e)
    (hcalm : ∀ f ∈ new, f.stage.calm = true) : GenerationInv c' where
  behind i := by
    rw [hquiet.store, hquiet.generation]
    exact h.behind i
  frames f hf := by
    rcases List.mem_append.mp (hnew.mem_iff.mp hf) with hf | hf
    · exact .of_calm (hcalm f hf) _
    · have hknows := h.frames f (hold.mem_iff.mpr (List.mem_append_right _ hf))
      exact hknows.congr (hquiet.generation _) (hquiet.store _)
  apart := by
    refine Apart.of_perm hnew.symm (List.pairwise_append.mpr ⟨?_, ?_, fun f hf g _ => ?_⟩)
    · exact List.pairwise_of_forall_mem_list fun f hf g _ => .of_calm (hcalm f hf) g
    · exact (List.pairwise_append.mp (Apart.of_perm hold h.apart)).2.1
    · exact .of_calm (hcalm f hf) g

/-- A step of a coordinator that the other threads bear. -/
theorem GenerationInv.update (h : GenerationInv c) {i : ι} {s : CoordinatorState}
    {next : Option (Stage ι)} (hnext : new = next.toList.map (⟨i, ·⟩))
    (hstate : c'.state = Function.update c.state i s)
    (hbehind : s.store.generation ≤ s.generation) (hknows : ∀ stage ∈ next, stage.Knows s)
    (hrest : ∀ f ∈ rest, f.self = i →
      f.stage.Knows s ∧ ∀ stage ∈ next, Apart ⟨i, stage⟩ f) : GenerationInv c' where
  behind := by
    rw [hstate]
    exact (Function.forall_update_iff c.state fun _ s =>
      s.store.generation ≤ s.generation).mpr ⟨hbehind, fun j _ => h.behind j⟩
  frames f hf := by
    rw [hstate]
    rcases List.mem_append.mp (hnew.mem_iff.mp hf) with hf | hf
    · rw [hnext, List.mem_map] at hf
      obtain ⟨stage, hstage, rfl⟩ := hf
      simpa only [Function.update_self] using hknows stage (Option.mem_toList.mp hstage)
    · by_cases hij : f.self = i
      · rw [hij, Function.update_self]
        exact (hrest f hf hij).1
      · rw [Function.update_of_ne hij]
        exact h.frames f (hold.mem_iff.mpr (List.mem_append_right _ hf))
  apart := by
    refine Apart.of_perm hnew.symm (List.pairwise_append.mpr ⟨?_, ?_, fun f hf g hg => ?_⟩)
    · rw [hnext]
      cases next <;> simp
    · exact (List.pairwise_append.mp (Apart.of_perm hold h.apart)).2.1
    · rw [hnext, List.mem_map] at hf
      obtain ⟨stage, hstage, rfl⟩ := hf
      by_cases hij : g.self = i
      · exact (hrest g hg hij).2 stage (Option.mem_toList.mp hstage)
      · exact fun hself => absurd hself.symm hij

end Preservation

/-- The generations of one coordinator grow. -/
theorem keepsGenerations_update {c c' : Config ι} {e : Event ι} {i : ι} {s : CoordinatorState}
    (hstate : c'.state = Function.update c.state i s)
    (hgeneration : (c.state i).generation ≤ s.generation)
    (hstore : (c.state i).store.generation ≤ s.store.generation)
    (hleader : ∀ j req, e = .announced j req → (c.state j).generation ≤ req.generation) :
    KeepsGenerations ⟨c, e, c'⟩ where
  generation := by
    rw [hstate]
    exact (Function.forall_update_iff c.state fun j s =>
      (c.state j).generation ≤ s.generation).mpr ⟨hgeneration, fun _ _ => UInt64.le_refl _⟩
  store := by
    rw [hstate]
    exact (Function.forall_update_iff c.state fun j s =>
      (c.state j).store.generation ≤ s.store.generation).mpr
        ⟨hstore, fun _ _ => UInt64.le_refl _⟩
  leader j req hlabel hlt := absurd hlt (UInt64.not_lt.mpr (hleader j req hlabel))

/-- A step that meets the condition keeps the generations. -/
theorem GenerationInv.step {c c' : Config ι} {e : Event ι} (h : GenerationInv c)
    (hstep : Step C lossy c e c') (hfresh : Fresh ⟨c, e, c'⟩) :
    KeepsGenerations ⟨c, e, c'⟩ ∧ GenerationInv c' := by
  obtain ⟨old, new, rest, hold, hnew, hmove⟩ := hstep.move
  have hmem : ∀ f ∈ rest, f ∈ c.frames := fun f hf =>
    hold.mem_iff.mpr (List.mem_append_right _ hf)
  rcases move_cases hmove with ⟨hquiet, hcalm⟩ |
    ⟨i, stage, effect, rfl, hnext, hmutex, heffect, rfl, hstate⟩ |
    ⟨j, req, rfl, hnext, hmutex, rfl, hstate⟩
  · refine ⟨⟨fun i => ?_, fun i => ?_, fun j req hlabel => absurd hlabel (hquiet.event j req)⟩,
      h.quiet hold hnew hquiet hcalm⟩
    · exact UInt64.le_of_eq (hquiet.generation i).symm
    · exact UInt64.le_of_eq (hquiet.store i).symm
  · have hcount : stage = .counting → (c.state i).generation.toNat + 1 < 2 ^ 64 ∧
        ∀ f ∈ c.frames, f.self = i → f.stage.Bears ((c.state i).generation + 1) := by
      rintro rfl
      exact hfresh
    have hknows := h.frames ⟨i, stage⟩ (hold.mem_iff.mpr (by simp))
    obtain ⟨⟨hgeneration, hstore⟩, hbehind, hnexts⟩ :=
      advance_generations heffect hknows (fun hstage => (hcount hstage).1) (h.behind i)
    refine ⟨keepsGenerations_update hstate hgeneration hstore
      (fun j req hlabel => absurd hlabel (eventOf_ne_announced j req)),
      h.update hold hnew hnext hstate hbehind hnexts fun f hf hself => ?_⟩
    have hapart := (List.pairwise_append.mp (Apart.of_perm hold h.apart)).2.2 ⟨i, stage⟩
      (List.mem_singleton_self _) f hf
    have hf' := h.frames f (hmem f hf)
    rw [hself] at hf'
    exact advance_apart heffect hknows (fun hstage => (hcount hstage).1) hself hf' hapart
      (fun hstage => (hcount hstage).2 f (hmem f hf) hself)
      (fun hstage => (hmutex hstage).frames f (hmem f hf) hself)
  · obtain ⟨hlate, hexposed⟩ : (c.state j).generation ≤ req.generation ∧
      ∀ f ∈ c.frames, f.self = j → f.stage.exposed = false := hfresh
    refine ⟨keepsGenerations_update hstate (UInt64.le_refl _) (UInt64.le_refl _) ?_,
      @GenerationInv.update _ _ _ _ _ _ _ hold hnew h j _ (some (.following req)) hnext hstate
        (h.behind j) ?_ fun f hf hself => ⟨?_, ?_⟩⟩
    · rintro _ _ ⟨⟩
      exact hlate
    · simpa [Stage.Knows] using hlate
    · have hf' := h.frames f (hmem f hf)
      rw [hself] at hf'
      exact hf'.congr rfl rfl
    · rintro _ ⟨⟩ -
      have hlocked := hmutex.frames f (hmem f hf) hself
      refine ⟨fun _ => ⟨hlocked, hexposed f (hmem f hf) hself⟩, fun hlocked' => ?_⟩
      rw [hlocked] at hlocked'
      cases hlocked'

/-- In every run in which no announcement is late, no generation wraps around and no
update overtakes another one, the generations of the coordinators and of their stores
never decrease, and no announcement of a lower generation replaces a leader. -/
theorem generations_kept {trace : List (Transition (Config ι) (Event ι))} {c : Config ι}
    (hrun : Run (Step C lossy) initial trace c) (hfresh : ∀ t ∈ trace, Fresh t) :
    ∀ t ∈ trace, KeepsGenerations t :=
  hrun.forall_of (fun _ _ _ hstep h hfresh => h.step hstep hfresh) generationInv_initial hfresh

/-- A coordinator without peers. -/
def loneCoordinator : Coordinators Unit where
  nodeId _ := str "a"
  peers _ := []

/-- A coordinator counts its first generation. -/
theorem generations_kept_lone :
    ∃ trace c, Run (Step loneCoordinator fun _ _ => False) initial trace c ∧
      (c.state ()).generation = 1 ∧ ∀ t ∈ trace, KeepsGenerations t := by
  let c₀ : Config Unit := { (initial : Config Unit) with threads := [[⟨(), .asking []⟩]] }
  have hstart : Step loneCoordinator (fun _ _ => False) initial .other c₀ := .start () rfl
  obtain ⟨c₁, hstep₁, hthread₁, hstate₁, -, -⟩ :=
    @step_first _ _ loneCoordinator (fun _ _ => False) c₀ _ _ _ _ _ _ rfl nofun rfl
  obtain ⟨c₂, hstep₂, hthread₂, hstate₂, -, -⟩ :=
    @step_first _ _ loneCoordinator (fun _ _ => False) _ _ _ _ _ _ _ hthread₁ nofun rfl
  obtain ⟨c₃, hstep₃, hthread₃, hstate₃, -, -⟩ :=
    @step_first _ _ loneCoordinator (fun _ _ => False) _ _ _ _ _ _ _ hthread₂ nofun rfl
  have hrun := Run.head hstart (.head hstep₁ (.head hstep₂ (.single hstep₃)))
  refine ⟨_, c₃, hrun, ?_, generations_kept hrun ?_⟩
  · rw [hstate₃, hstate₂, hstate₁]
    rfl
  · have hfresh : Fresh ⟨c₂, .counted (), c₃⟩ := by
      refine ⟨?_, fun f hf _ => ?_⟩
      · rw [hstate₂, hstate₁]
        decide
      · rw [hthread₂] at hf
        simp only [List.flatten_cons, List.flatten_nil, List.append_nil, List.mem_singleton] at hf
        rw [hf]
        trivial
    simp only [List.forall_mem_cons]
    exact ⟨trivial, trivial, trivial, hfresh, nofun⟩

/-! ## Late announcements -/

/-- An `AnnounceLeader` from its first step to its return. -/
theorem run_follows {c : Config ι} {j : ι} {req : LeaderAnnounceRequest}
    (hmessage : (j, req) ∈ c.announcements) (hmutex : Unlocked c.threads j) :
    ∃ c₁ rest c', Step C lossy c (.announced j req) c₁ ∧ Run (Step C lossy) c₁ rest c' ∧
      (c₁.state j).currentLeader = req.leaderId ∧
      c'.state = Function.update c.state j (announceLeader (C.nodeId j) (c.state j) req).2 ∧
      c'.threads = [] :: c.threads := by
  let c₁ : Config ι :=
    { c with
      state := Function.update c.state j { c.state j with currentLeader := req.leaderId }
      threads := [⟨j, .following req⟩] :: c.threads }
  obtain ⟨c₂, hstep₂, hthread₂, hstate₂, -, -⟩ :=
    @step_first _ _ C lossy c₁ _ _ _ _ _ _ rfl nofun rfl
  obtain ⟨c₃, hstep₃, hthread₃, hstate₃, -, -⟩ :=
    @step_first _ _ C lossy _ _ _ _ _ _ _ hthread₂ nofun rfl
  have hthread₃' : c₃.threads = [] ++ [⟨j, .confirming req⟩] :: c.threads := hthread₃
  have hreturn : Step C lossy c₃ .other _ := .advance hthread₃' nofun rfl
  refine ⟨c₁, _, _, .announce hmessage hmutex, .head hstep₂ (.head hstep₃ (.single hreturn)),
    ?_, ?_, rfl⟩
  · simp only [c₁, Function.update_self]
  · simp only [hstate₃, hstate₂, c₁, Function.update_self, Function.update_idem, announceLeader]

/-- A late announcement replaces a leader of a higher generation, and the generations of
the coordinator and of its store decrease. -/
theorem late_announcement_takes_back :
    ∃ trace c, Run (Step twoCoordinators fun _ _ => True) initial trace c ∧
      ∃ t ∈ trace, ∃ req, t.label = .announced true req ∧
        req.generation < (t.source.state true).generation ∧
        (t.target.state true).currentLeader ≠ (t.source.state true).currentLeader ∧
        (c.state true).generation < (t.source.state true).generation ∧
        (c.state true).store.generation < (t.source.state true).store.generation := by
  -- `false` is elected and its announcement is on the way
  obtain ⟨first, c₁, hfirst, hthread₁, hstate₁, hrequests₁, hmessages₁⟩ :=
    @run_partitioned _ _ twoCoordinators (fun _ _ => True) false true rfl trivial initial rfl nofun
  obtain ⟨c₂, hsend, hthread₂, hstate₂, hrequests₂, hmessages₂⟩ :=
    @step_first _ _ twoCoordinators (fun _ _ => True) _ _ _ _ _ _ _ hthread₁ nofun rfl
  rw [hstate₁] at hstate₂ hmessages₂
  -- `true` is elected twice: by its own loop, and for the lost request of `false`
  have hmutex₂ : Unlocked c₂.threads true := hthread₂ ▸ Unlocked.cons nofun rfl
  obtain ⟨second, c₃, hsecond, hthread₃, hstate₃, hrequests₃, hmessages₃⟩ :=
    @run_partitioned _ _ twoCoordinators (fun _ _ => True) true false rfl trivial c₂
      (by rw [hstate₂]; rfl) hmutex₂
  have hmutex₃ : Unlocked c₃.threads true := hthread₃ ▸ hmutex₂.cons rfl
  have hrequest : (true, electionRequest twoCoordinators false) ∈ c₃.requests := by
    rw [hrequests₃, hrequests₂, hrequests₁]
    simp
  have hserve : Step twoCoordinators (fun _ _ => True) c₃ .other
      { c₃ with threads := [⟨true, .asking [false]⟩] :: c₃.threads } := .serveLate hrequest rfl
  obtain ⟨third, c₄, hthird, hthread₄, hstate₄, -, hmessages₄⟩ :=
    @run_isolated _ _ twoCoordinators (fun _ _ => True) true false trivial
      { c₃ with threads := [⟨true, .asking [false]⟩] :: c₃.threads } _ rfl hmutex₃
  rw [hstate₃, hstate₂] at hstate₄
  -- now the announcement arrives
  have hmessage : (true, { leaderId := str "a", generation := 1 }) ∈ c₄.announcements := by
    rw [hmessages₄, hmessages₃, hmessages₂]
    exact List.mem_cons_self
  obtain ⟨c₅, last, c₆, hannounce, hlast, hleader, hstate₆, -⟩ :=
    run_follows hmessage (hthread₄ ▸ hmutex₃.cons rfl)
  have hbefore := hfirst.trans (.head hsend (hsecond.trans (.head hserve hthird)))
  refine ⟨_, c₆, hbefore.trans (.head hannounce hlast), ⟨c₄, _, c₅⟩,
    List.mem_append_right _ List.mem_cons_self, _, rfl, ?_, ?_, ?_, ?_⟩
  · rw [hstate₄]
    decide
  · rw [hleader, hstate₄]
    decide
  · rw [hstate₆, hstate₄]
    decide
  · rw [hstate₆, hstate₄]
    decide

end StorageEngine.Coordinator
