import Mathlib.Algebra.Group.Nat.Defs
import StorageEngine.Lib.Cursor

/-!
# Readers with a 64-bit cursor

A reader in a language with machine words keeps its cursor in one, and the sum of a cursor
and a length can wrap, so a bounds test says something only if it does not.  `Parser` is
such a reader.  It writes down each index that it reads, each sum that it computes, each
range that it copies and each move of its cursor, also when it stops with an underflow.

`Refines` says that a parser does nothing out of bounds, on every buffer of fewer than
`2 ^ 63` tokens, and that it returns what a reader of `Lib.Cursor` does, whose cursor is a
number.  It has the rules of `Reads`.
-/

namespace Lib.BoundedCursor

open Lib.Cursor

variable {τ α β : Type}

/-- What a parser does to the buffer and to its cursor. -/
inductive Access where
  | index (i : UInt64)
  | sum (a b : UInt64)
  | range (first last : UInt64)
  | move (before after : UInt64)
  deriving DecidableEq, Repr

/-- The access is good for a buffer of this size. -/
def Access.Safe (size : ℕ) : Access → Prop
  | .index i => i.toNat < size
  | .sum a b => a.toNat + b.toNat < 2 ^ 64
  | .range first last => first.toNat ≤ last.toNat ∧ last.toNat ≤ size
  | .move before after => before.toNat ≤ after.toNat ∧ after.toNat ≤ size

structure State where
  pos : UInt64 := 0
  log : List Access := []
  deriving DecidableEq, Repr

/-- The exception of a reader that finds too few tokens. -/
inductive Underflow where
  | underflow
  deriving DecidableEq, Repr

abbrev Parser (τ α : Type) := ReaderT (List τ) (ExceptT Underflow (StateM State)) α

/-! ## Operations -/

/-- The size of the buffer, as a word. -/
def size : Parser τ UInt64 := fun buf st => (.ok (UInt64.ofNat buf.length), st)

/-- The cursor. -/
def position : Parser τ UInt64 := fun _ st => (.ok st.pos, st)

/-- A sum of words. -/
def add (a b : UInt64) : Parser τ UInt64 := fun _ st =>
  (.ok (a + b), { st with log := st.log ++ [.sum a b] })

/-- `buf[i]`. -/
def get (fallback : τ) (i : UInt64) : Parser τ τ := fun buf st =>
  (.ok (buf.getD i.toNat fallback), { st with log := st.log ++ [.index i] })

/-- The tokens from `first` to `last`. -/
def slice (first last : UInt64) : Parser τ (List τ) := fun buf st =>
  (.ok ((buf.drop first.toNat).take (last.toNat - first.toNat)),
    { st with log := st.log ++ [.range first last] })

/-- The assignment of the cursor. -/
def moveTo (pos : UInt64) : Parser τ Unit := fun _ st =>
  (.ok (), { pos, log := st.log ++ [.move st.pos pos] })

/-- `throw`. -/
def underflow : Parser τ α := fun _ st => (.error .underflow, st)

theorem bind_run (parser : Parser τ α) (next : α → Parser τ β) (buf : List τ) (st : State) :
    (parser >>= next) buf st =
      match parser buf st with
      | (.ok a, st') => next a buf st'
      | (.error e, st') => (.error e, st') := by
  simp only [Bind.bind, ReaderT.bind, ExceptT.bind, ExceptT.mk, StateT.bind]
  rcases parser buf st with ⟨_ | _, st'⟩ <;> rfl

theorem pure_run (a : α) (buf : List τ) (st : State) :
    (pure a : Parser τ α) buf st = (.ok a, st) := rfl

theorem size_run (buf : List τ) (st : State) :
    (size : Parser τ UInt64) buf st = (.ok (UInt64.ofNat buf.length), st) := rfl

theorem position_run (buf : List τ) (st : State) :
    (position : Parser τ UInt64) buf st = (.ok st.pos, st) := rfl

theorem add_run (a b : UInt64) (buf : List τ) (st : State) :
    (add a b : Parser τ UInt64) buf st =
      (.ok (a + b), { st with log := st.log ++ [.sum a b] }) := rfl

theorem get_run (fallback : τ) (i : UInt64) (buf : List τ) (st : State) :
    get fallback i buf st =
      (.ok (buf.getD i.toNat fallback), { st with log := st.log ++ [.index i] }) := rfl

theorem slice_run (first last : UInt64) (buf : List τ) (st : State) :
    slice first last buf st =
      (.ok ((buf.drop first.toNat).take (last.toNat - first.toNat)),
        { st with log := st.log ++ [.range first last] }) := rfl

theorem moveTo_run (pos : UInt64) (buf : List τ) (st : State) :
    (moveTo pos : Parser τ Unit) buf st =
      (.ok (), { pos, log := st.log ++ [.move st.pos pos] }) := rfl

/-! ## Nothing out of bounds -/

/-- The cursor is in the buffer, and all has been good so far. -/
structure State.Safe (buf : List τ) (st : State) : Prop where
  pos : st.pos.toNat ≤ buf.length
  log : ∀ access ∈ st.log, access.Safe buf.length

/-- From a safe state, the parser does nothing out of bounds and returns what the reader
does. -/
def Refines (parser : Parser τ α) (reader : Reader τ α) : Prop :=
  ∀ (buf : List τ) (st : State), buf.length < 2 ^ 63 → st.Safe buf →
    (parser buf st).2.Safe buf ∧
      match (parser buf st).1 with
      | .ok a => reader buf st.pos.toNat = some (a, (parser buf st).2.pos.toNat)
      | .error _ => reader buf st.pos.toNat = none

/-- One more access. -/
theorem State.Safe.access {buf : List τ} {st : State} (h : st.Safe buf) {access : Access}
    (haccess : access.Safe buf.length) : State.Safe buf { st with log := st.log ++ [access] } := by
  refine ⟨h.pos, ?_⟩
  rw [List.forall_mem_append, List.forall_mem_singleton]
  exact ⟨h.log, haccess⟩

/-- A move of the cursor. -/
theorem State.Safe.moveTo {buf : List τ} {st : State} (h : st.Safe buf) {pos : UInt64}
    (hmove : Access.Safe buf.length (.move st.pos pos)) :
    State.Safe buf { pos, log := st.log ++ [.move st.pos pos] } :=
  ⟨hmove.2, (h.access hmove).log⟩

section Bounds

variable {buf : List τ} {st : State} {n : UInt64}

/-- A sum of the cursor and a length does not wrap. -/
theorem State.Safe.sum (h : st.Safe buf) (hsize : buf.length < 2 ^ 63) (hn : n.toNat < 2 ^ 63) :
    Access.Safe buf.length (.sum st.pos n) := by
  have hpos := h.pos
  rw [Access.Safe]
  omega

theorem State.Safe.toNat_add (h : st.Safe buf) (hsize : buf.length < 2 ^ 63)
    (hn : n.toNat < 2 ^ 63) : (st.pos + n).toNat = st.pos.toNat + n.toNat := by
  have hsum : st.pos.toNat + n.toNat < 2 ^ 64 := h.sum hsize hn
  rw [UInt64.toNat_add, Nat.mod_eq_of_lt hsum]

/-- So a test of the sum says whether there are as many tokens. -/
theorem State.Safe.sum_gt_iff (h : st.Safe buf) (hsize : buf.length < 2 ^ 63)
    (hn : n.toNat < 2 ^ 63) :
    st.pos + n > UInt64.ofNat buf.length ↔ st.pos.toNat + n.toNat > buf.length := by
  have hlength : (UInt64.ofNat buf.length).toNat = buf.length :=
    UInt64.toNat_ofNat_of_lt' (Nat.lt_trans hsize (by decide))
  rw [gt_iff_lt, UInt64.lt_iff_toNat_lt, hlength, h.toNat_add hsize hn]

/-- A move over tokens that are there. -/
theorem State.Safe.move (h : st.Safe buf) (hsize : buf.length < 2 ^ 63)
    (hfit : st.pos.toNat + n.toNat ≤ buf.length) :
    Access.Safe buf.length (.move st.pos (st.pos + n)) := by
  rw [Access.Safe, h.toNat_add hsize (by omega)]
  omega

end Bounds

theorem refines_pure (a : α) : Refines (pure a : Parser τ α) (pure a) := by
  intro buf st hsize hsafe
  exact ⟨hsafe, rfl⟩

theorem Refines.ite {c : Prop} [Decidable c] {parser parser' : Parser τ α}
    {reader reader' : Reader τ α} (h : Refines parser reader) (h' : Refines parser' reader') :
    Refines (if c then parser else parser') (if c then reader else reader') := by
  split
  · exact h
  · exact h'

theorem Refines.bind {parser : Parser τ α} {next : α → Parser τ β} {reader : Reader τ α}
    {reader' : α → Reader τ β} (hfirst : Refines parser reader)
    (hnext : ∀ a, Refines (next a) (reader' a)) :
    Refines (parser >>= next) (reader >>= reader') := by
  intro buf st hsize hsafe
  obtain ⟨hsafe₁, hread⟩ := hfirst buf st hsize hsafe
  rw [bind_run]
  simp only [Bind.bind, ReaderT.bind, StateT.bind]
  cases hresult : parser buf st with
  | mk result st₁ =>
    rw [hresult] at hsafe₁ hread
    cases result with
    | error e =>
      dsimp only at hread ⊢
      rw [hread]
      exact ⟨hsafe₁, rfl⟩
    | ok a =>
      dsimp only at hread ⊢
      rw [hread]
      exact hnext a buf st₁ hsize hsafe₁

end Lib.BoundedCursor
