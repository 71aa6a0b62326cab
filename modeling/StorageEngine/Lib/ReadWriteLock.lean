import StorageEngine.Lib.Transition

/-!
# Sections under a readers–writer lock

Any number of threads share a state and a lock that many can hold to read, or one to write.  What
a thread does while it holds the lock is a section, and goes on one access to the state at a time.

* `Step` is one access, or a step that takes or frees the lock, or one outside of all sections.
* `AtomicStep` does a whole section at once.
* `sections_atomic`: what is seen of the first is seen of the second.  A section takes effect
  when it takes the lock.
-/

namespace Lib.ReadWriteLock

/-! ## The lock -/

inductive Mode where
  | shared
  | exclusive
  deriving DecidableEq, Repr

/-- How many hold the lock to read, and whether one holds it to write. -/
structure Lock where
  readers : ℕ := 0
  writer : Bool := false
  deriving DecidableEq, Repr

/-- The lock once it is taken, with none while the caller has to wait. -/
def Lock.acquire (lock : Lock) : Mode → Option Lock
  | .shared => if lock.writer = true then none else some { lock with readers := lock.readers + 1 }
  | .exclusive =>
    if lock.writer = true ∨ lock.readers ≠ 0 then none else some { lock with writer := true }

def Lock.release (lock : Lock) : Mode → Lock
  | .shared => { lock with readers := lock.readers - 1 }
  | .exclusive => { lock with writer := false }

/-! ## Sections -/

variable {σ κ Act : Type}

/-- Accesses to the state, one after another.  An access may read the state and change it, and
the next one depends on what was read. -/
inductive Body (σ κ : Type) where
  | done (k : κ)
  | access (write : σ → σ) (next : σ → Body σ κ)

/-- All accesses at once. -/
def Body.run : Body σ κ → σ → κ × σ
  | .done k, s => (k, s)
  | .access write next, s => (next s).run (write s)

/-- No access changes the state. -/
inductive Body.ReadsOnly : Body σ κ → Prop where
  | done (k : κ) : ReadsOnly (.done k)
  | access {write : σ → σ} {next : σ → Body σ κ} (hwrite : ∀ s, write s = s)
      (hnext : ∀ s, ReadsOnly (next s)) : ReadsOnly (.access write next)

/-- Only a section that holds the lock alone changes the state. -/
structure Section (σ κ : Type) where
  mode : Mode
  body : Body σ κ
  reads : mode = .shared → body.ReadsOnly

theorem Body.ReadsOnly.run_state {body : Body σ κ} (h : body.ReadsOnly) (s : σ) :
    (body.run s).2 = s := by
  induction h with
  | done k => rfl
  | @access write next hwrite _ ih => rw [Body.run, hwrite, ih]

/-! ## Threads -/

/-- A thread is outside of all sections, or has this part of one left. -/
inductive Thread (σ κ : Type) where
  | outside (k : κ)
  | inside (mode : Mode) (body : Body σ κ)

structure Config (σ κ : Type) where
  state : σ
  lock : Lock := {}
  threads : List (Thread σ κ) := []

/-- What the threads do: which ones start, what they do outside of the sections, and the sections
that they have.  The threads are numbered in the order of their starts. -/
structure Client (σ κ Act : Type) where
  starts : ℕ → κ → Act → Prop
  turns : ℕ → κ → κ → Act → Prop
  sections : κ → σ → Section σ κ → Prop

/-- One step of one thread. -/
inductive Step (C : Client σ κ Act) : Config σ κ → Option Act → Config σ κ → Prop where
  | start {c : Config σ κ} {k : κ} {act : Act} (hstart : C.starts c.threads.length k act) :
      Step C c (some act) { c with threads := c.threads ++ [.outside k] }
  | turn {c : Config σ κ} {before after : List (Thread σ κ)} {k k' : κ} {act : Act}
      (hthread : c.threads = before ++ .outside k :: after)
      (hturn : C.turns before.length k k' act) :
      Step C c (some act) { c with threads := before ++ .outside k' :: after }
  | acquire {c : Config σ κ} {before after : List (Thread σ κ)} {k : κ} {sec : Section σ κ}
      {lock : Lock} (hthread : c.threads = before ++ .outside k :: after)
      (hsection : C.sections k c.state sec) (hlock : c.lock.acquire sec.mode = some lock) :
      Step C c none
        { c with lock := lock, threads := before ++ .inside sec.mode sec.body :: after }
  | access {c : Config σ κ} {before after : List (Thread σ κ)} {mode : Mode} {write : σ → σ}
      {next : σ → Body σ κ}
      (hthread : c.threads = before ++ .inside mode (.access write next) :: after) :
      Step C c none
        { c with
          state := write c.state
          threads := before ++ .inside mode (next c.state) :: after }
  | release {c : Config σ κ} {before after : List (Thread σ κ)} {mode : Mode} {k : κ}
      (hthread : c.threads = before ++ .inside mode (.done k) :: after) :
      Step C c none
        { c with lock := c.lock.release mode, threads := before ++ .outside k :: after }

/-- The threads without the lock: each section is done at once. -/
inductive AtomicStep (C : Client σ κ Act) : σ × List κ → Option Act → σ × List κ → Prop where
  | start {s : σ} {threads : List κ} {k : κ} {act : Act} (hstart : C.starts threads.length k act) :
      AtomicStep C (s, threads) (some act) (s, threads ++ [k])
  | turn {s : σ} {before after : List κ} {k k' : κ} {act : Act}
      (hturn : C.turns before.length k k' act) :
      AtomicStep C (s, before ++ k :: after) (some act) (s, before ++ k' :: after)
  | perform {s : σ} {before after : List κ} {k : κ} {sec : Section σ κ}
      (hsection : C.sections k s sec) :
      AtomicStep C (s, before ++ k :: after) none
        ((sec.body.run s).2, before ++ (sec.body.run s).1 :: after)

/-! ## Who holds the lock -/

def Thread.holds (mode : Mode) : Thread σ κ → Bool
  | .outside _ => false
  | .inside mode' _ => decide (mode' = mode)

/-- How many threads hold the lock so. -/
def holders (mode : Mode) (threads : List (Thread σ κ)) : ℕ :=
  threads.countP (Thread.holds mode)

@[simp] theorem holders_split (mode : Mode) (before after : List (Thread σ κ))
    (t : Thread σ κ) : holders mode (before ++ t :: after) =
      holders mode before + holders mode after + (t.holds mode).toNat := by
  simp only [holders, List.countP_append, List.countP_cons]
  cases t.holds mode <;> simp [Nat.add_assoc]

@[simp] theorem Thread.holds_outside (mode : Mode) (k : κ) :
    (outside k : Thread σ κ).holds mode = false := rfl

@[simp] theorem Thread.holds_inside (mode mode' : Mode) (body : Body σ κ) :
    (inside mode' body).holds mode = decide (mode' = mode) := rfl

/-- The lock counts the threads that hold it, and readers only read. -/
structure LockInv (c : Config σ κ) : Prop where
  readers : holders .shared c.threads = c.lock.readers
  writer : holders .exclusive c.threads = c.lock.writer.toNat
  alone : c.lock.writer = true → c.lock.readers = 0
  reads : ∀ body, .inside .shared body ∈ c.threads → body.ReadsOnly

theorem lockInv_start (s : σ) : LockInv (⟨s, {}, []⟩ : Config σ κ) :=
  ⟨rfl, rfl, nofun, by simp⟩

/-- The lock is free for a writer. -/
theorem Lock.acquire_exclusive {lock lock' : Lock}
    (h : lock.acquire .exclusive = some lock') :
    lock.writer = false ∧ lock.readers = 0 ∧ lock' = { lock with writer := true } := by
  simp only [acquire, Option.ite_none_left_eq_some, not_or, not_not, Bool.not_eq_true] at h
  exact ⟨h.1.1, h.1.2, (Option.some.inj h.2).symm⟩

theorem Lock.acquire_shared {lock lock' : Lock} (h : lock.acquire .shared = some lock') :
    lock.writer = false ∧ lock' = { lock with readers := lock.readers + 1 } := by
  simp only [acquire, Option.ite_none_left_eq_some, Bool.not_eq_true] at h
  exact ⟨h.1, (Option.some.inj h.2).symm⟩

/-- Only one thread takes its next stage. -/
theorem LockInv.replace {c : Config σ κ} (h : LockInv c) {before after : List (Thread σ κ)}
    {t t' : Thread σ κ} (hthread : c.threads = before ++ t :: after) {s : σ} {lock : Lock}
    (hreaders : lock.readers + (t.holds .shared).toNat =
      c.lock.readers + (t'.holds .shared).toNat)
    (hwriter : lock.writer.toNat + (t.holds .exclusive).toNat =
      c.lock.writer.toNat + (t'.holds .exclusive).toNat)
    (halone : lock.writer = true → lock.readers = 0)
    (hreads : ∀ body, t' = .inside .shared body → body.ReadsOnly) :
    LockInv ⟨s, lock, before ++ t' :: after⟩ := by
  obtain ⟨hshared, hexclusive, -, hall⟩ := h
  rw [hthread, holders_split] at hshared hexclusive
  refine ⟨?_, ?_, halone, fun body hbody => ?_⟩
  · show holders .shared (before ++ t' :: after) = lock.readers
    rw [holders_split]
    omega
  · show holders .exclusive (before ++ t' :: after) = lock.writer.toNat
    rw [holders_split]
    omega
  · rw [hthread] at hall
    rcases List.mem_append.mp hbody with hmem | hmem
    · exact hall body (List.mem_append_left _ hmem)
    · rcases List.mem_cons.mp hmem with hself | hmem
      · exact hreads body hself.symm
      · exact hall body (List.mem_append_right _ (List.mem_cons_of_mem _ hmem))

theorem LockInv.step {C : Client σ κ Act} {c c' : Config σ κ} {l : Option Act}
    (hstep : Step C c l c') (h : LockInv c) : LockInv c' := by
  cases hstep with
  | start hstart =>
    refine ⟨?_, ?_, h.alone, fun body hbody => h.reads body ?_⟩
    · simpa [holders] using h.readers
    · simpa [holders] using h.writer
    · simpa using hbody
  | turn hthread hturn => exact h.replace hthread (by simp) (by simp) h.alone nofun
  | @acquire before after k sec lock hthread hsection hlock =>
    obtain ⟨mode, body, honly⟩ := sec
    cases mode with
    | shared =>
      obtain ⟨hfree, rfl⟩ := Lock.acquire_shared hlock
      refine h.replace hthread (by simp) (by simp) (by simp [hfree]) fun other hother => ?_
      cases hother
      exact honly rfl
    | exclusive =>
      obtain ⟨hfree, hnone, rfl⟩ := Lock.acquire_exclusive hlock
      exact h.replace hthread (by simp) (by simp [hfree]) (fun _ => hnone) nofun
  | @access before after mode write next hthread =>
    refine h.replace hthread (by simp) (by simp) h.alone fun other hother => ?_
    cases hother
    cases h.reads _ (hthread ▸ List.mem_append_right _ List.mem_cons_self) with
    | access _ hnext => exact hnext _
  | @release before after mode k hthread =>
    have hreaders := h.readers
    have hwriter := h.writer
    rw [hthread, holders_split] at hreaders hwriter
    cases mode with
    | shared =>
      refine h.replace hthread ?_ (by simp [Lock.release]) (fun hheld => ?_) nofun
      · simp [Lock.release] at hreaders ⊢
        omega
      · have hnone := h.alone hheld
        simp [Lock.release, hnone]
    | exclusive =>
      refine h.replace hthread (by simp [Lock.release]) ?_ nofun nofun
      cases hheld : c.lock.writer
      · simp [hheld] at hwriter
      · simp [Lock.release]

/-! ## Sections take effect at once -/

/-- Where a thread is once the section that it is in has ended, from this state. -/
def Thread.settle (s : σ) : Thread σ κ → κ
  | .outside k => k
  | .inside _ body => (body.run s).1

/-- What is left to do of a section that changes the state. -/
def Thread.finish (s : σ) : Thread σ κ → σ
  | .inside .exclusive body => (body.run s).2
  | _ => s

/-- The state once the writer has ended its section. -/
def Config.committed (c : Config σ κ) : σ :=
  c.threads.foldl Thread.finish c.state

/-- Threads that are not writing leave the state. -/
theorem finish_of_not_writing {threads : List (Thread σ κ)} (h : holders .exclusive threads = 0)
    (s : σ) : threads.foldl Thread.finish s = s := by
  induction threads with
  | nil => rfl
  | cons t threads ih =>
    have hcount := holders_split .exclusive [] threads t
    rw [List.nil_append, h] at hcount
    have hfirst : t.finish s = s := by
      cases t with
      | outside k => rfl
      | inside mode body =>
        cases mode with
        | shared => rfl
        | exclusive => simp at hcount
    rw [List.foldl_cons, hfirst]
    refine ih ?_
    omega

/-- Without a writer the state is as the sections leave it. -/
theorem LockInv.committed {c : Config σ κ} (h : LockInv c) (hfree : c.lock.writer = false) :
    c.committed = c.state := by
  have hwriter := h.writer
  rw [hfree] at hwriter
  exact finish_of_not_writing hwriter c.state

/-- The state as the writer of a section leaves it. -/
theorem finish_writer {before after : List (Thread σ κ)} (hbefore : holders .exclusive before = 0)
    (hafter : holders .exclusive after = 0) (body : Body σ κ) (s : σ) :
    (before ++ .inside .exclusive body :: after).foldl Thread.finish s = (body.run s).2 := by
  rw [List.foldl_append, List.foldl_cons, finish_of_not_writing hbefore,
    finish_of_not_writing hafter]
  rfl

/-- Threads that are outside do not look at the state. -/
theorem settle_of_outside {threads : List (Thread σ κ)} (hshared : holders .shared threads = 0)
    (hexclusive : holders .exclusive threads = 0) (s s' : σ) :
    threads.map (Thread.settle s) = threads.map (Thread.settle s') := by
  refine List.map_congr_left fun t ht => ?_
  rw [holders, List.countP_eq_zero] at hshared hexclusive
  cases t with
  | outside k => rfl
  | inside mode body =>
    cases mode with
    | shared => exact absurd rfl (hshared _ ht)
    | exclusive => exact absurd rfl (hexclusive _ ht)

/-- The threads with each section done at once. -/
def Config.view (c : Config σ κ) : σ × List κ :=
  (c.committed, c.threads.map (Thread.settle c.state))

section Simulation

variable {C : Client σ κ Act} {c c' : Config σ κ} {l : Option Act}

/-- A section is done when it takes the lock, and its other steps are not seen. -/
theorem LockInv.simulates (h : LockInv c) (hstep : Step C c l c') :
    ∃ trace, Run (AtomicStep C) c.view trace c'.view ∧ Run.seen trace = l.toList := by
  have hafter := h.step hstep
  have hreaders := h.readers
  have hwriter := h.writer
  cases hstep with
  | @start k act hstart =>
    have hview : Config.view { c with threads := c.threads ++ [.outside k] } =
        (c.committed, c.view.2 ++ [k]) := by
      simp [Config.view, Config.committed, Thread.finish, Thread.settle]
    have hstart' : C.starts c.view.2.length k act := by
      rw [Config.view, List.length_map]
      exact hstart
    rw [hview]
    exact ⟨_, .single (.start hstart'), rfl⟩
  | @turn before after k k' act hthread hturn =>
    unfold Config.view Config.committed
    simp only [hthread, List.foldl_append, List.foldl_cons, List.map_append, List.map_cons]
    have hturn' : C.turns (before.map (Thread.settle c.state)).length k k' act := by
      rw [List.length_map]
      exact hturn
    exact ⟨_, .single (.turn hturn'), rfl⟩
  | @acquire before after k sec lock hthread hsection hlock =>
    rw [hthread, holders_split] at hreaders hwriter
    have hperform : AtomicStep C (c.state, before.map (Thread.settle c.state) ++ k ::
        after.map (Thread.settle c.state)) none _ := .perform hsection
    have hfree : c.lock.writer = false := by
      cases hmode : sec.mode with
      | shared => exact (Lock.acquire_shared (hmode ▸ hlock)).1
      | exclusive => exact (Lock.acquire_exclusive (hmode ▸ hlock)).1
    have hdone : (before ++ .inside sec.mode sec.body :: after).foldl Thread.finish c.state =
        (sec.body.run c.state).2 := by
      obtain ⟨mode, body, honly⟩ := sec
      simp only [hfree, Bool.toNat_false, Thread.holds_outside] at hwriter
      cases mode with
      | shared =>
        rw [finish_of_not_writing (by simp; omega), (honly rfl).run_state]
      | exclusive => exact finish_writer (by omega) (by omega) body c.state
    have hview : c.view = (c.state, before.map (Thread.settle c.state) ++ k ::
        after.map (Thread.settle c.state)) := by
      rw [Config.view, h.committed hfree, hthread, List.map_append, List.map_cons]
      rfl
    rw [hview]
    unfold Config.view Config.committed
    simp only [hdone, List.map_append, List.map_cons]
    exact ⟨_, .single hperform, rfl⟩
  | @access before after mode write next hthread =>
    rw [hthread, holders_split] at hreaders hwriter
    suffices hview : Config.view { c with
        state := write c.state
        threads := before ++ .inside mode (next c.state) :: after } = c.view by
      rw [hview]
      exact ⟨[], .refl _, rfl⟩
    cases mode with
    | shared =>
      have hfree : c.lock.writer = false := by
        cases hheld : c.lock.writer with
        | false => rfl
        | true => simp [h.alone hheld] at hreaders
      have hsame : write c.state = c.state := by
        have honly := h.reads (.access write next) (by simp [hthread])
        cases honly with
        | access hwrite _ => exact hwrite _
      rw [Config.view, Config.view, h.committed hfree, hafter.committed hfree, hthread]
      simp only [hsame, List.map_append, List.map_cons, Thread.settle, Body.run]
    | exclusive =>
      have hheld : c.lock.writer = true := by
        cases hfree : c.lock.writer with
        | false => simp [hfree] at hwriter
        | true => rfl
      have hnone := h.alone hheld
      simp [hheld] at hwriter
      simp [hnone] at hreaders
      unfold Config.view Config.committed
      simp only [hthread]
      rw [finish_writer hwriter.1 hwriter.2, finish_writer hwriter.1 hwriter.2]
      simp only [List.map_append, List.map_cons,
        settle_of_outside hreaders.1 hwriter.1 (write c.state) c.state,
        settle_of_outside hreaders.2 hwriter.2 (write c.state) c.state]
      rfl
  | @release before after mode k hthread =>
    rw [hthread, holders_split] at hreaders hwriter
    suffices hview : Config.view { c with
        lock := c.lock.release mode
        threads := before ++ .outside k :: after } = c.view by
      rw [hview]
      exact ⟨[], .refl _, rfl⟩
    unfold Config.view Config.committed
    simp only [hthread, List.foldl_append, List.foldl_cons, List.map_append, List.map_cons]
    cases mode <;> rfl

/-- What is seen of a run from a free lock is seen of a run in which each section is done at once.
When no writer is in its section, the states are the same. -/
theorem sections_atomic {s : σ} {trace : List (Transition (Config σ κ) (Option Act))}
    (hrun : Run (Step C) ⟨s, {}, []⟩ trace c) : ∃ trace',
      Run (AtomicStep C) (s, []) trace' c.view ∧ Run.seen trace' = Run.seen trace ∧
        (c.lock.writer = false → c.view.1 = c.state) := by
  have hstart : LockInv (⟨s, {}, []⟩ : Config σ κ) := lockInv_start s
  obtain ⟨trace', view, hrun', hseen, hinv, rfl⟩ := hrun.simulates_seen
    (R := fun c view => LockInv c ∧ c.view = view)
    (fun c l c' view hstep h => by
      obtain ⟨first, hfirst, hlabel⟩ := h.1.simulates hstep
      exact ⟨first, c'.view, h.2 ▸ hfirst, hlabel, h.1.step hstep, rfl⟩)
    ⟨hstart, rfl⟩
  exact ⟨trace', hrun', hseen, hinv.committed⟩

end Simulation

end Lib.ReadWriteLock
