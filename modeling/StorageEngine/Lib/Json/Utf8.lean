import StorageEngine.Lib.Json.Pieces

/-!
# JSON documents as bytes

RFC 8259, section 8.1: a document is UTF-8.  The strings of `parseBytes` are byte strings
again, so a document can be compared with what a program meant to write.

`parseBytes_spellAll_iff` is the result about the pieces of `Pieces.lean` for byte strings:
the document has the meant value exactly when each string is the encoding of characters
that need no escape.
-/

namespace Lib.Json

/-! ## The encoding -/

def encode (cs : List Char) : List UInt8 :=
  cs.flatMap String.utf8EncodeChar

def decode (bytes : List UInt8) : Option (List Char) :=
  bytes.toByteArray.utf8Decode?.map Array.toList

theorem encode_append (cs cs' : List Char) : encode (cs ++ cs') = encode cs ++ encode cs' :=
  List.flatMap_append

theorem decode_encode (cs : List Char) : decode (encode cs) = some cs := by
  have hdecode := @List.utf8Decode?_utf8Encode cs
  unfold decode encode
  rw [List.utf8Encode] at hdecode
  rw [hdecode, Option.map_some]

/-- The encoding of characters that need no escape. -/
def PlainText (s : List UInt8) : Prop :=
  ∃ cs, encode cs = s ∧ ∀ c ∈ cs, Unescaped c

/-! ## Documents -/

def Token.map {S T : Type} (f : S → T) : Token S → Token T
  | .punctuation p => .punctuation p
  | .null => .null
  | .bool b => .bool b
  | .number n => .number n
  | .string s => .string (f s)

/-- The value of a document. -/
def parseBytes (bytes : List UInt8) : Option (Value (List UInt8)) := do
  let cs ← decode bytes
  let ts ← lex cs
  parseTokens (ts.map (Token.map encode))

theorem parseBytes_eq_some_iff {bytes : List UInt8} {v : Value (List UInt8)} :
    parseBytes bytes = some v ↔ ∃ cs ts, decode bytes = some cs ∧ lex cs = some ts ∧
      ts.map (Token.map encode) = tokens v := by
  unfold parseBytes
  constructor
  · intro h
    obtain ⟨cs, hcs, hrest⟩ := Option.bind_eq_some_iff.mp h
    obtain ⟨ts, hts, hparse⟩ := Option.bind_eq_some_iff.mp hrest
    exact ⟨cs, ts, hcs, hts, parseTokens_eq_some_iff.mp hparse⟩
  · intro h
    obtain ⟨cs, ts, hcs, hts, htokens⟩ := h
    exact Option.bind_eq_some_iff.mpr ⟨cs, hcs,
      Option.bind_eq_some_iff.mpr ⟨ts, hts, parseTokens_eq_some_iff.mpr htokens⟩⟩

/-! ## Pieces -/

def Piece.map {S T : Type} (f : S → T) : Piece S → Piece T
  | .space => .space
  | .newline => .newline
  | .punctuation p => .punctuation p
  | .bool b => .bool b
  | .natural n => .natural n
  | .string s => .string (f s)

theorem token?_map {S T : Type} (f : S → T) (p : Piece S) :
    (p.map f).token? = p.token?.map (Token.map f) := by
  cases p <;> rfl

theorem filterMap_token?_map {S T : Type} (f : S → T) (pieces : List (Piece S)) :
    (pieces.map (Piece.map f)).filterMap Piece.token? =
      (pieces.filterMap Piece.token?).map (Token.map f) := by
  rw [List.filterMap_map, List.map_filterMap]
  exact List.filterMap_congr fun p _ => token?_map f p

theorem encode_spellAll (pieces : List (Piece (List Char))) :
    encode (spellAll id pieces) = spellAll encode (pieces.map (Piece.map encode)) := by
  induction pieces with
  | nil => rfl
  | cons p pieces ih =>
    have hspell : encode (p.spell id) = (p.map encode).spell encode := by
      cases p with
      | string s => simp only [Piece.spell, Piece.map, encode_append, id]
      | bool b => cases b <;> rfl
      | _ => rfl
    rw [List.map_cons, spellAll, spellAll, List.flatMap_cons, List.flatMap_cons, encode_append,
      hspell]
    exact congrArg _ ih

theorem wellSpaced_map {S T : Type} (f : S → T) {pieces : List (Piece S)}
    (h : WellSpaced (pieces.map (Piece.map f))) : WellSpaced pieces := by
  induction pieces with
  | nil => trivial
  | cons p pieces ih =>
    cases p with
    | natural n =>
      obtain ⟨⟨next, more, hrest, hnext⟩, hspaced⟩ := h
      refine ⟨?_, ih hspaced⟩
      cases pieces with
      | nil => cases hrest
      | cons p pieces =>
        refine ⟨p, pieces, rfl, ?_⟩
        rw [List.map_cons, List.cons.injEq] at hrest
        rw [← hrest.1] at hnext
        cases p <;> first | rfl | cases hnext
    | _ => exact ih h

/-- Tokens that encode to those of some pieces are the tokens of some pieces. -/
theorem exists_pieces_of_tokens {pieces : List (Piece (List UInt8))}
    {ts : List (Token (List Char))}
    (h : ts.map (Token.map encode) = pieces.filterMap Piece.token?) :
    ∃ pieces' : List (Piece (List Char)), pieces'.map (Piece.map encode) = pieces ∧
      pieces'.filterMap Piece.token? = ts := by
  induction pieces generalizing ts with
  | nil => exact ⟨[], rfl, (List.map_eq_nil_iff.mp h).symm⟩
  | cons p pieces ih =>
    cases htoken : p.token? with
    | none =>
      rw [List.filterMap_cons_none htoken] at h
      obtain ⟨pieces', rfl, hts⟩ := ih h
      cases p with
      | space => exact ⟨.space :: pieces', rfl, hts⟩
      | newline => exact ⟨.newline :: pieces', rfl, hts⟩
      | _ => cases htoken
    | some t =>
      rw [List.filterMap_cons_some htoken] at h
      obtain ⟨t', ts', rfl, ht, hrest⟩ := List.map_eq_cons_iff.mp h
      obtain ⟨pieces', rfl, rfl⟩ := ih hrest
      cases p with
      | space => cases htoken
      | newline => cases htoken
      | punctuation p =>
        cases htoken
        cases t' <;> cases ht
        exact ⟨.punctuation p :: pieces', rfl, rfl⟩
      | bool b =>
        cases htoken
        cases t' <;> cases ht
        exact ⟨.bool b :: pieces', rfl, rfl⟩
      | natural n =>
        cases htoken
        cases t' <;> cases ht
        exact ⟨.natural n :: pieces', rfl, rfl⟩
      | string s =>
        cases htoken
        cases t' <;> cases ht
        exact ⟨.string _ :: pieces', rfl, rfl⟩

/-- Pieces with plain strings are the encodings of pieces that need no escape. -/
theorem exists_pieces_of_plain {pieces : List (Piece (List UInt8))}
    (h : ∀ s, .string s ∈ pieces → PlainText s) :
    ∃ pieces' : List (Piece (List Char)), pieces'.map (Piece.map encode) = pieces ∧
      AllUnescaped pieces' := by
  induction pieces with
  | nil => exact ⟨[], rfl, fun s hs => nomatch hs⟩
  | cons p pieces ih =>
    obtain ⟨pieces', rfl, hrest⟩ := ih fun s hs => h s (List.mem_cons_of_mem _ hs)
    cases p with
    | string s =>
      obtain ⟨cs, rfl, hcs⟩ := h s List.mem_cons_self
      exact ⟨.string cs :: pieces', rfl, allUnescaped_cons_string.mpr ⟨hcs, hrest⟩⟩
    | space => exact ⟨.space :: pieces', rfl, (allUnescaped_cons (by simp)).mpr hrest⟩
    | newline => exact ⟨.newline :: pieces', rfl, (allUnescaped_cons (by simp)).mpr hrest⟩
    | punctuation p =>
      exact ⟨.punctuation p :: pieces', rfl, (allUnescaped_cons (by simp)).mpr hrest⟩
    | bool b => exact ⟨.bool b :: pieces', rfl, (allUnescaped_cons (by simp)).mpr hrest⟩
    | natural n => exact ⟨.natural n :: pieces', rfl, (allUnescaped_cons (by simp)).mpr hrest⟩

/-- A document that is written without escapes has the meant value if and only if its
strings are plain. -/
theorem parseBytes_spellAll_iff {pieces : List (Piece (List UInt8))} {v : Value (List UInt8)}
    (hspaced : WellSpaced pieces) (htokens : pieces.filterMap Piece.token? = tokens v) :
    parseBytes (spellAll encode pieces) = some v ↔ ∀ s, .string s ∈ pieces → PlainText s := by
  rw [parseBytes_eq_some_iff]
  constructor
  · intro h s hs
    -- the strings that were read are characters that encode the meant strings
    obtain ⟨cs, ts, hcs, hlex, hvalue⟩ := h
    rw [← htokens] at hvalue
    obtain ⟨pieces', rfl, rfl⟩ := exists_pieces_of_tokens hvalue
    rw [← encode_spellAll, decode_encode, Option.some.injEq] at hcs
    rw [← hcs, lex_spellAll_iff (wellSpaced_map encode hspaced)] at hlex
    obtain ⟨p, hp, hmap⟩ := List.mem_map.mp hs
    cases p <;> cases hmap
    exact ⟨_, rfl, hlex _ hp⟩
  · intro h
    obtain ⟨pieces', rfl, hall⟩ := exists_pieces_of_plain h
    refine ⟨spellAll id pieces', _, ?_, (lex_spellAll_iff (wellSpaced_map encode hspaced)).mpr hall,
      ?_⟩
    · rw [← encode_spellAll, decode_encode]
    · rw [← htokens, filterMap_token?_map]

end Lib.Json
