import StorageEngine.Lib.Json.Lexer
import Mathlib.Tactic.IntervalCases

/-!
# JSON texts whose strings are not escaped

A `Piece` is what a writer appends that puts its strings between quotes as they are.
`lex_pieces_iff` says when the text of some pieces has the tokens that the writer meant:
exactly when no character of a string needed an escape.

The hard direction is `reads_ne`.  A string with a quote is cut short.  A string with a
backslash loses a character to the escape, and the reader is behind the text from then on;
where it runs past the closing quote, what it reads ends with a character of the text
behind the quote, and the string ended with a backslash.
-/

namespace Lib.Json

open Punctuation

/-! ## Reading a string -/

/-- The characters up to the closing quote, and the text behind it. -/
def reads : Reading → List Char → Option (List Char × List Char)
  | _, [] => none
  | r, c :: cs =>
    if c = '"' ∧ r.isPlain then some (r.read, cs)
    else
      match readChar r c with
      | none => none
      | some r => reads r cs

theorem lexFrom_string (done : List (Token (List Char))) (r : Reading) (cs : List Char) :
    lexFrom (done, .string r) cs =
      (reads r cs).bind fun found => lexFrom (done ++ [.string found.1], .between) found.2 := by
  induction cs generalizing r with
  | nil => rfl
  | cons c cs ih =>
    rw [lexFrom_cons, lexStep, reads]
    split
    · rfl
    · cases hread : readChar r c with
      | none => rfl
      | some r' => exact ih r'

theorem reads_plain {s : List Char} (hs : ∀ c ∈ s, Unescaped c) (read tail : List Char) :
    reads (.plain read) (s ++ '"' :: tail) = some (read ++ s, tail) := by
  induction s generalizing read with
  | nil =>
    rw [List.append_nil]
    rfl
  | cons c s ih =>
    obtain ⟨hc, hrest⟩ := List.forall_mem_cons.mp hs
    rw [List.cons_append, reads, if_neg fun h => hc.1 h.1, readChar, if_neg hc.2.1, if_pos hc]
    exact (ih hrest (read ++ [c])).trans (by rw [List.append_assoc, List.singleton_append])

/-- The text up to the next quote has no backslash. -/
def Quiet (tail : List Char) : Prop :=
  '\\' ∉ tail.takeWhile (· ≠ '"')

/-- What is read up to the next quote, where there is no escape. -/
theorem reads_quiet {tail : List Char} (htail : Quiet tail) {read v rest : List Char}
    (h : reads (.plain read) tail = some (v, rest)) :
    v = read ++ tail.takeWhile (· ≠ '"') := by
  induction tail generalizing read with
  | nil => cases h
  | cons c tail ih =>
    rw [reads] at h
    split at h
    · next hquote =>
      cases h
      simp [hquote.1, Reading.read]
    · next hquote =>
      have hne : c ≠ '"' := fun hc => hquote ⟨hc, rfl⟩
      have htake : (c :: tail).takeWhile (· ≠ '"') = c :: tail.takeWhile (· ≠ '"') := by
        simp [hne]
      rw [Quiet, htake, List.mem_cons, not_or] at htail
      rw [readChar, if_neg fun hc => htail.1 hc.symm] at h
      split at h
      · cases h
      · next r hr =>
        split at hr
        · cases hr
          rw [ih htail.2 h, htake, List.append_assoc, List.singleton_append]
        · cases hr

/-- A character of the text adds at most one character to the string. -/
theorem length_readChar {r r' : Reading} {c : Char} (h : readChar r c = some r') :
    r'.read.length ≤ r.read.length + 1 := by
  unfold readChar at h
  split at h
  · split at h
    · cases h
      exact Nat.le_succ _
    · split at h
      · cases h
        exact Nat.le_of_eq List.length_append
      · cases h
  · split at h
    · cases h
      exact Nat.le_succ _
    · obtain ⟨c', -, rfl⟩ := Option.map_eq_some_iff.mp h
      exact Nat.le_of_eq List.length_append
  · obtain ⟨d, -, h⟩ := Option.bind_eq_some_iff.mp h
    split at h
    · cases h
      exact Nat.le_succ _
    · unfold codeUnit at h
      split at h <;> split at h
      · cases h
        exact Nat.le_succ _
      · split at h
        · cases h
        · cases h
          exact Nat.le_of_eq List.length_append
      · cases h
        exact Nat.le_of_eq List.length_append
      · cases h
  · split at h
    · cases h
      exact Nat.le_succ _
    · cases h
  · split at h
    · cases h
      exact Nat.le_succ _
    · cases h

/-- Only a backslash begins an escape. -/
theorem readChar_escape {r : Reading} {c : Char} {read : List Char}
    (h : readChar r c = some (.escape read)) : c = '\\' := by
  unfold readChar at h
  split at h
  · split at h
    · next hc => exact hc
    · split at h <;> cases h
  · split at h
    · cases h
    · obtain ⟨c', -, hr⟩ := Option.map_eq_some_iff.mp h
      cases hr
  · obtain ⟨d, -, h⟩ := Option.bind_eq_some_iff.mp h
    unfold codeUnit at h
    split at h
    · cases h
    · split at h <;> split at h
      · cases h
      · split at h <;> cases h
      · cases h
      · cases h
  · split at h <;> cases h
  · split at h <;> cases h

/-- A reader that is behind the text does not read the whole string, and a reader that runs
past its closing quote reads something else. -/
theorem reads_behind {s : List Char} {tail : List Char} (htail : Quiet tail) {r : Reading}
    {seen v rest : List Char} (hbehind : r.read.length < seen.length)
    (hescape : ∀ read, r = .escape read → seen.getLast? = some '\\')
    (h : reads r (s ++ '"' :: tail) = some (v, rest)) : v ≠ seen ++ s := by
  induction s generalizing r seen with
  | nil =>
    rw [List.append_nil]
    rw [List.nil_append, reads] at h
    split at h
    · cases h
      intro heq
      rw [heq] at hbehind
      exact Nat.lt_irrefl _ hbehind
    · next hclosed =>
      -- the closing quote is a character of the string, after an escape
      cases r with
      | escape read =>
        have hv := reads_quiet htail h
        intro heq
        have hlast := hescape read rfl
        rw [← heq, hv, List.append_assoc, List.getLast?_append_of_ne_nil _ (by simp)] at hlast
        rcases List.mem_cons.mp (List.mem_of_getLast? hlast) with hquote | hbefore
        · cases hquote
        · exact htail hbefore
      | plain read => exact absurd ⟨rfl, rfl⟩ hclosed
      | unicode read high digits value => cases h
      | half read high => cases h
      | halfEscape read high => cases h
  | cons c s ih =>
    rw [List.cons_append, reads] at h
    split at h
    · cases h
      intro heq
      have hlength := congrArg List.length heq
      rw [List.length_append] at hlength
      omega
    · split at h
      · cases h
      · next r' hr' =>
        have hread := length_readChar hr'
        have hlonger : r'.read.length < (seen ++ [c]).length := by
          rw [List.length_append, List.length_singleton]
          omega
        have hlast : ∀ read, r' = .escape read → (seen ++ [c]).getLast? = some '\\' := by
          intro read hr
          rw [hr] at hr'
          rw [List.getLast?_concat, readChar_escape hr']
        have hne := ih hlonger hlast h
        rwa [List.append_assoc, List.singleton_append] at hne

/-- A string with a character that needs an escape is not read back. -/
theorem reads_ne {s tail : List Char} (hs : ¬ ∀ c ∈ s, Unescaped c) (htail : Quiet tail)
    {read v rest : List Char} (h : reads (.plain read) (s ++ '"' :: tail) = some (v, rest)) :
    v ≠ read ++ s := by
  induction s generalizing read with
  | nil => exact absurd (fun c hc => nomatch hc) hs
  | cons c s ih =>
    rw [List.cons_append, reads] at h
    split at h
    · cases h
      intro heq
      have hlength := congrArg List.length heq
      rw [List.length_append, List.length_cons] at hlength
      simp only [Reading.read] at hlength
      omega
    · next hquote =>
      rw [readChar] at h
      split at h
      · cases h
      · next r hr =>
        split at hr
        · next hbackslash =>
          cases hr
          have hne := @reads_behind s tail htail (.escape read) (read ++ [c]) v rest
            (by rw [List.length_append]; exact Nat.lt_succ_self _)
            (fun _ _ => by rw [List.getLast?_concat, hbackslash]) h
          rwa [List.append_assoc, List.singleton_append] at hne
        · split at hr
          · next hc =>
            cases hr
            have hrest : ¬ ∀ c ∈ s, Unescaped c := fun hall =>
              hs (List.forall_mem_cons.mpr ⟨hc, hall⟩)
            have hne := ih hrest h
            rwa [List.append_assoc, List.singleton_append] at hne
          · cases hr

/-! ## Numbers -/

/-- The machine inside a natural number. -/
theorem run_digits (done : List (Token (List Char))) {n : ℕ} (hn : 0 < n) :
    (Nat.toDigits 10 n).foldlM lexStep (done, .between) =
      some (done, .number .int { whole := n }) := by
  induction n using Nat.strongRecOn with
  | _ n ih =>
    by_cases hlt : n < 10
    · rw [Nat.toDigits_of_lt_base hlt]
      interval_cases n <;> rfl
    · rw [Nat.toDigits_of_base_le (by decide) (Nat.not_lt.mp hlt), List.foldlM_append,
        ih (n / 10) (by omega) (by omega)]
      have hdigit : ∀ d < 10, (d.digitChar).isDigit = true ∧
          d.digitChar.toNat - '0'.toNat = d := by decide
      obtain ⟨hisDigit, hvalue⟩ := hdigit (n % 10) (Nat.mod_lt n (by decide))
      have hwhole : 10 * (n / 10) + n % 10 = n := by omega
      simp only [List.foldlM_cons, List.foldlM_nil, Option.bind_some, lexStep, numberStep,
        hisDigit, if_true, hvalue, hwhole, Option.pure_def, Option.bind_eq_bind]

/-- The characters that may follow a number here. -/
def Separates (c : Char) : Prop :=
  c.isDigit = false ∧ c ≠ '.' ∧ c ≠ 'e' ∧ c ≠ 'E'

instance (c : Char) : Decidable (Separates c) := inferInstanceAs (Decidable (_ ∧ _ ∧ _ ∧ _))

theorem lexFrom_natural (done : List (Token (List Char))) (n : ℕ) {c : Char}
    (hc : Separates c) (cs : List Char) :
    lexFrom (done, .between) (Nat.toDigits 10 n ++ c :: cs) =
      lexFrom (done ++ [.number { whole := n }], .between) (c :: cs) := by
  obtain ⟨hdigit, hpoint, he, hE⟩ := hc
  rw [lexFrom, List.foldlM_append, lexFrom_cons]
  rcases Nat.eq_zero_or_pos n with rfl | hn
  · have hstep : lexStep (done, .number .zero { whole := 0 }) c =
        beginToken (done ++ [.number { whole := 0 }]) c := by
      simp [lexStep, numberStep, afterInt, hpoint, he, hE, NumberPart.finished]
    show ((lexStep (done, .number .zero { whole := 0 }) c).bind _).bind lexEnd = _
    rw [hstep]
    exact Option.bind_assoc _ _ _
  · have hstep : lexStep (done, .number .int { whole := n }) c =
        beginToken (done ++ [.number { whole := n }]) c := by
      simp [lexStep, numberStep, afterInt, hdigit, hpoint, he, hE, NumberPart.finished]
    rw [run_digits done hn]
    show ((lexStep (done, .number .int { whole := n }) c).bind _).bind lexEnd = _
    rw [hstep]
    exact Option.bind_assoc _ _ _

/-! ## Pieces -/

/-- What the writer appends. -/
inductive Piece (S : Type) where
  | space
  | newline
  | punctuation (p : Punctuation)
  | bool (b : Bool)
  | natural (n : ℕ)
  | string (s : S)
  deriving DecidableEq, Repr

def Punctuation.char : Punctuation → Char
  | beginArray => '['
  | beginObject => '{'
  | endArray => ']'
  | endObject => '}'
  | nameSeparator => ':'
  | valueSeparator => ','

/-- The text of a piece.  `lit` spells ASCII characters. -/
def Piece.spell {A : Type} (lit : List Char → List A) : Piece (List A) → List A
  | .space => lit [' ']
  | .newline => lit ['\n']
  | .punctuation p => lit [p.char]
  | .bool true => lit ['t', 'r', 'u', 'e']
  | .bool false => lit ['f', 'a', 'l', 's', 'e']
  | .natural n => lit (Nat.toDigits 10 n)
  | .string s => lit ['"'] ++ s ++ lit ['"']

def spellAll {A : Type} (lit : List Char → List A) (pieces : List (Piece (List A))) : List A :=
  pieces.flatMap (Piece.spell lit)

/-- The token that the writer means. -/
def Piece.token? {S : Type} : Piece S → Option (Token S)
  | .space => none
  | .newline => none
  | .punctuation p => some (.punctuation p)
  | .bool b => some (.bool b)
  | .natural n => some (.number { whole := n })
  | .string s => some (.string s)

/-- Whitespace and structural characters. -/
def Piece.separates {S : Type} : Piece S → Bool
  | .space => true
  | .newline => true
  | .punctuation _ => true
  | _ => false

/-- Every number is followed by a separator. -/
def WellSpaced {S : Type} : List (Piece S) → Prop
  | [] => True
  | .natural _ :: rest => (∃ next more, rest = next :: more ∧ next.separates = true) ∧
    WellSpaced rest
  | _ :: rest => WellSpaced rest

theorem spell_separates {p : Piece (List Char)} (hp : p.separates = true) :
    ∃ c, p.spell id = [c] ∧ Separates c := by
  cases p with
  | space => exact ⟨' ', rfl, by decide⟩
  | newline => exact ⟨'\n', rfl, by decide⟩
  | punctuation p => exact ⟨p.char, rfl, by cases p <;> decide⟩
  | bool b => cases hp
  | natural n => cases hp
  | string s => cases hp

/-! ## The tokens of the pieces -/

theorem beginToken_grows {done : List (Token (List Char))} {c : Char} {st : LexState}
    (h : beginToken done c = some st) : done <+: st.1 := by
  unfold beginToken at h
  split at h <;> first
    | (cases h; exact List.prefix_rfl)
    | (cases h; exact List.prefix_append _ _)
    | (split at h <;> cases h; exact List.prefix_rfl)

theorem lexStep_grows {st st' : LexState} {c : Char} (h : lexStep st c = some st') :
    st.1 <+: st'.1 := by
  unfold lexStep at h
  split at h
  · exact beginToken_grows h
  · split at h
    · cases h
      exact List.prefix_append _ _
    · obtain ⟨r', -, rfl⟩ := Option.map_eq_some_iff.mp h
      exact List.prefix_rfl
  · split at h
    · cases h
      exact List.prefix_rfl
    · split at h
      · exact (List.prefix_append _ _).trans (beginToken_grows h)
      · cases h
  · split at h
    · cases h
    · split at h
      · cases h
      · split at h
        · cases h
          exact List.prefix_append _ _
        · cases h
          exact List.prefix_rfl

/-- The tokens that have been read stay. -/
theorem lexFrom_grows {cs : List Char} {st : LexState} {ts : List (Token (List Char))}
    (h : lexFrom st cs = some ts) : st.1 <+: ts := by
  induction cs generalizing st with
  | nil =>
    rw [lexFrom_nil] at h
    unfold lexEnd at h
    split at h
    · cases h
      exact List.prefix_rfl
    · split at h
      · cases h
        exact List.prefix_append _ _
      · cases h
    · cases h
  | cons c cs ih =>
    rw [lexFrom_cons] at h
    obtain ⟨st', hstep, hrest⟩ := Option.bind_eq_some_iff.mp h
    exact (lexStep_grows hstep).trans (ih hrest)

/-- A piece that is no string and no number. -/
theorem lexFrom_piece (done : List (Token (List Char))) {p : Piece (List Char)}
    (hstring : ∀ s, p ≠ .string s) (hnatural : ∀ n, p ≠ .natural n) (cs : List Char) :
    lexFrom (done, .between) (p.spell id ++ cs) =
      lexFrom (done ++ p.token?.toList, .between) cs := by
  cases p with
  | space => rw [Piece.token?, Option.toList_none, List.append_nil]; rfl
  | newline => rw [Piece.token?, Option.toList_none, List.append_nil]; rfl
  | punctuation p => cases p <;> rfl
  | bool b => cases b <;> rfl
  | natural n => exact absurd rfl (hnatural n)
  | string s => exact absurd rfl (hstring s)

/-- Characters of the writer, which are no quotes and no backslashes. -/
theorem takeWhile_append_quiet {a : List Char} (ha : (a.all fun c => c != '"' && c != '\\') = true)
    {b : List Char} (hb : Quiet b) : Quiet (a ++ b) := by
  simp only [List.all_eq_true, Bool.and_eq_true, bne_iff_ne] at ha
  have htake : (a ++ b).takeWhile (· ≠ '"') = a ++ b.takeWhile (· ≠ '"') := by
    rw [List.takeWhile_append_of_pos fun c hc => by simpa using (ha c hc).1]
  rw [Quiet, htake, List.mem_append, not_or]
  exact ⟨fun hmem => (ha _ hmem).2 rfl, hb⟩

/-- Up to the next quote there are only characters of the writer. -/
theorem quiet_spellAll (pieces : List (Piece (List Char))) : Quiet (spellAll id pieces) := by
  induction pieces with
  | nil => exact List.not_mem_nil
  | cons p pieces ih =>
    rw [spellAll, List.flatMap_cons]
    cases p with
    | space => exact takeWhile_append_quiet rfl ih
    | newline => exact takeWhile_append_quiet rfl ih
    | punctuation p => exact takeWhile_append_quiet (by cases p <;> rfl) ih
    | bool b => exact takeWhile_append_quiet (by cases b <;> rfl) ih
    | natural n =>
      refine takeWhile_append_quiet (List.all_eq_true.mpr fun c hc => ?_) ih
      have hdigit := Nat.isDigit_of_mem_toDigits (by decide) (by decide) hc
      rw [Bool.and_eq_true, bne_iff_ne, bne_iff_ne]
      constructor
      · rintro rfl
        cases hdigit
      · rintro rfl
        cases hdigit
    | string s => simp [Quiet, Piece.spell]

/-- The strings need no escapes. -/
def AllUnescaped (pieces : List (Piece (List Char))) : Prop :=
  ∀ s, .string s ∈ pieces → ∀ c ∈ s, Unescaped c

theorem allUnescaped_cons_string {s : List Char} {pieces : List (Piece (List Char))} :
    AllUnescaped (.string s :: pieces) ↔ (∀ c ∈ s, Unescaped c) ∧ AllUnescaped pieces := by
  constructor
  · intro h
    exact ⟨h s List.mem_cons_self, fun s' hs' => h s' (List.mem_cons_of_mem _ hs')⟩
  · intro h s' hs'
    rcases List.mem_cons.mp hs' with heq | hs'
    · cases heq
      exact h.1
    · exact h.2 s' hs'

theorem allUnescaped_cons {p : Piece (List Char)} (hstring : ∀ s, p ≠ .string s)
    {pieces : List (Piece (List Char))} : AllUnescaped (p :: pieces) ↔ AllUnescaped pieces := by
  constructor
  · exact fun h s hs => h s (List.mem_cons_of_mem _ hs)
  · intro h s hs
    rcases List.mem_cons.mp hs with heq | hs
    · exact absurd heq.symm (hstring s)
    · exact h s hs

/-- A number and the separator behind it. -/
theorem lexFrom_natural_spellAll (done : List (Token (List Char))) (n : ℕ)
    {pieces : List (Piece (List Char))} (hspaced : WellSpaced (.natural n :: pieces)) :
    lexFrom (done, .between) (Nat.toDigits 10 n ++ spellAll id pieces) =
      lexFrom (done ++ [.number { whole := n }], .between) (spellAll id pieces) := by
  obtain ⟨⟨next, more, rfl, hnext⟩, -⟩ := hspaced
  obtain ⟨c, hspell, hc⟩ := spell_separates hnext
  have hcons : spellAll id (next :: more) = c :: spellAll id more := by
    rw [spellAll, List.flatMap_cons, hspell]
    rfl
  rw [hcons]
  exact lexFrom_natural done n hc _

/-- A string that needs an escape is not among the tokens in its place. -/
theorem lexFrom_string_ne {done more : List (Token (List Char))} {s : List Char}
    {pieces : List (Piece (List Char))} (hs : ¬ ∀ c ∈ s, Unescaped c) :
    lexFrom (done, .string (.plain [])) (s ++ '"' :: spellAll id pieces) ≠
      some (done ++ .string s :: more) := by
  intro h
  rw [lexFrom_string] at h
  obtain ⟨⟨v, rest⟩, hread, hrest⟩ := Option.bind_eq_some_iff.mp h
  have hgrows : done ++ [.string v] <+: done ++ .string s :: more := lexFrom_grows hrest
  have hhead := (List.cons_prefix_cons.mp ((List.prefix_append_right_inj done).mp hgrows)).1
  cases hhead
  exact reads_ne hs (quiet_spellAll pieces) hread rfl

/-- The text of some pieces has the tokens that the writer meant if and only if no string
has a character that needs an escape. -/
theorem lexFrom_spellAll_iff {pieces : List (Piece (List Char))} (hspaced : WellSpaced pieces)
    (done : List (Token (List Char))) :
    lexFrom (done, .between) (spellAll id pieces) = some (done ++ pieces.filterMap Piece.token?) ↔
      AllUnescaped pieces := by
  induction pieces generalizing done with
  | nil => simp [spellAll, lexFrom_nil, lexEnd, AllUnescaped]
  | cons p pieces ih =>
    have htokens : done ++ (p :: pieces).filterMap Piece.token? =
        done ++ p.token?.toList ++ pieces.filterMap Piece.token? := by
      rw [List.append_assoc]
      cases p <;> rfl
    have hspell : spellAll id (p :: pieces) = p.spell id ++ spellAll id pieces := rfl
    rw [htokens, hspell]
    by_cases hstring : ∃ s, p = .string s
    · obtain ⟨s, rfl⟩ := hstring
      have hquote : lexFrom (done, .between) (Piece.spell id (.string s) ++ spellAll id pieces) =
          lexFrom (done, .string (.plain [])) (s ++ '"' :: spellAll id pieces) := by
        simp only [Piece.spell, id, List.cons_append, List.append_assoc]
        rfl
      rw [hquote, allUnescaped_cons_string]
      by_cases hs : ∀ c ∈ s, Unescaped c
      · rw [lexFrom_string, reads_plain hs]
        exact (ih hspaced (done ++ [.string s])).trans (and_iff_right hs).symm
      · refine iff_of_false ?_ fun h => hs h.1
        rw [List.append_assoc]
        exact lexFrom_string_ne hs
    · rw [not_exists] at hstring
      rw [allUnescaped_cons hstring]
      by_cases hnatural : ∃ n, p = .natural n
      · obtain ⟨n, rfl⟩ := hnatural
        have hnumber := lexFrom_natural_spellAll done n hspaced
        rw [Piece.spell, id, hnumber]
        exact ih hspaced.2 _
      · rw [not_exists] at hnatural
        have hrest : WellSpaced pieces := by
          cases p with
          | natural n => exact absurd rfl (hnatural n)
          | _ => exact hspaced
        rw [lexFrom_piece done hstring hnatural]
        exact ih hrest _

theorem lex_spellAll_iff {pieces : List (Piece (List Char))} (hspaced : WellSpaced pieces) :
    lex (spellAll id pieces) = some (pieces.filterMap Piece.token?) ↔ AllUnescaped pieces :=
  lexFrom_spellAll_iff hspaced []

end Lib.Json
