import Mathlib.Data.List.GetD

/-!
# Readers that walk a buffer with a cursor

A decoder of a flat format reads one field after another.  It keeps the whole
buffer and the position of the next token, and it fails as soon as a field does
not fit.  `Reader` is that shape: the buffer comes in unchanged, the cursor is
threaded, and `none` is the failure.

An encoder appends the fields in the same order.  `Reads` says that a reader
undoes one encoded field, wherever in a buffer the field stands.  The two
rules at the end put a reader together from the readers of its fields, so that
the round trip of a format is the list of the round trips of its fields.

`Recovers` is the other direction, for buffers that no encoder has written: all
that the reader takes off the buffer is a code of the value that it returns.  It
has the same two rules.

Nothing here fixes the tokens or the fields.
-/

namespace Lib.Cursor

variable {τ α β : Type}

/-- A reader of one field: the buffer, the cursor, and the value with the new
cursor. -/
abbrev Reader (τ α : Type) := ReaderT (List τ) (StateT Nat Option) α

/-- `reader` reads `value` off the tokens `code`, whatever stands before and
after them, and leaves the cursor behind them. -/
def Reads (reader : Reader τ α) (code : List τ) (value : α) : Prop :=
  ∀ before after : List τ,
    reader (before ++ code ++ after) before.length =
      some (value, before.length + code.length)

/-- Reading one token of a field: index `i` of the field is index
`before.length + i` of the buffer. -/
theorem getD_field (before code after : List τ) (fallback : τ) {i : Nat}
    (hi : i < code.length) :
    (before ++ code ++ after).getD (before.length + i) fallback =
      code.getD i fallback := by
  rw [List.append_assoc, List.getD_append_right _ _ _ _ (Nat.le_add_right _ _),
    Nat.add_sub_cancel_left, List.getD_append _ _ _ _ hi]

/-- A loop over the indexes of a field is a loop over its tokens. -/
theorem foldl_field (f : β → τ → β) (init : β) (before code after : List τ)
    (fallback : τ) :
    (List.range code.length).foldl
        (fun b i => f b ((before ++ code ++ after).getD (before.length + i) fallback))
        init = code.foldl f init := by
  have hcode : code = (List.range code.length).map fun i =>
      (before ++ code ++ after).getD (before.length + i) fallback := by
    apply List.ext_getElem
    · simp
    · intro i hi _
      rw [List.getElem_map, List.getElem_range,
        getD_field before code after fallback hi, List.getD_eq_getElem _ _ hi]
  conv => rhs; rw [hcode, List.foldl_map]

/-- The slice of the buffer that holds the field is the field. -/
theorem extract_field (before code after : List τ) :
    ((before ++ code ++ after).drop before.length).take code.length = code := by
  rw [List.append_assoc, List.drop_left, List.take_left]

/-! ## Putting readers together -/

theorem reads_pure (value : α) :
    Reads (pure value : Reader τ α) [] value := by
  intro before after
  rfl

/-- A field read first leaves the cursor where the next field starts. -/
theorem Reads.bind {reader : Reader τ α} {next : α → Reader τ β}
    {code rest : List τ} {value : α} {result : β}
    (hfirst : Reads reader code value)
    (hnext : Reads (next value) rest result) :
    Reads (reader >>= next) (code ++ rest) result := by
  intro before after
  have hread := hfirst before (rest ++ after)
  have hthen := hnext (before ++ code) after
  simp only [List.append_assoc, List.length_append] at hread hthen ⊢
  simp only [Bind.bind, ReaderT.bind, StateT.bind, hread, Option.bind_some,
    hthen, Nat.add_assoc]

/-! ## Buffers of unknown origin -/

/-- What `reader` takes off a buffer is a code of the value that it returns. -/
def Recovers (reader : Reader τ α) (code : α → List τ → Prop) : Prop :=
  ∀ (before rest : List τ) (value : α) (cursor : Nat),
    reader (before ++ rest) before.length = some (value, cursor) →
      ∃ field after, rest = field ++ after ∧ cursor = before.length + field.length ∧
        code value field

/-- The tokens of a field that fits. -/
theorem exists_field {rest : List τ} {n : Nat} (h : n ≤ rest.length) :
    ∃ field after, rest = field ++ after ∧ field.length = n :=
  ⟨rest.take n, rest.drop n, (List.take_append_drop n rest).symm, List.length_take_of_le h⟩

theorem recovers_pure (value : α) :
    Recovers (pure value : Reader τ α) fun v field => v = value ∧ field = [] := by
  intro before rest v cursor h
  cases h
  exact ⟨[], rest, rfl, rfl, rfl, rfl⟩

/-- A reader that goes on after a first field takes off a code of both. -/
theorem Recovers.bind {reader : Reader τ α} {next : α → Reader τ β}
    {code : α → List τ → Prop} {codes : α → β → List τ → Prop}
    (hfirst : Recovers reader code) (hnext : ∀ value, Recovers (next value) (codes value)) :
    Recovers (reader >>= next) fun result field =>
      ∃ value first last, field = first ++ last ∧ code value first ∧ codes value result last := by
  intro before rest result cursor h
  simp only [Bind.bind, ReaderT.bind, StateT.bind, Option.bind_eq_some_iff, Prod.exists] at h
  obtain ⟨value, middle, hread, hthen⟩ := h
  obtain ⟨first, after, rfl, rfl, hcode⟩ := hfirst _ _ _ _ hread
  rw [← List.append_assoc, ← List.length_append] at hthen
  obtain ⟨last, after, rfl, rfl, hcodes⟩ := hnext value _ _ _ _ hthen
  refine ⟨first ++ last, after, ?_, ?_, value, first, last, rfl, hcode, hcodes⟩
  · rw [List.append_assoc]
  · rw [List.length_append, List.length_append, Nat.add_assoc]

end Lib.Cursor
