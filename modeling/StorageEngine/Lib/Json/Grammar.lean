import Mathlib.Data.List.Basic

/-!
# The JSON grammar over tokens

RFC 8259, sections 2 to 6: the values, and the tokens that they are written with.  A
`Value` keeps the members of an object in order and does not merge equal names.  The type
of the strings is a parameter.

`parseTokens` is a machine that takes one token at a time.  `Mode.read` is what it has read
so far, and every step appends its token to it.  So a token list that is accepted is that of
the value (`parseTokens_eq_some_iff`): no two token lists have one value, and no token list
has two.
-/

namespace Lib.Json

variable {S : Type}

/-- A number as it is written.  `fraction` and `exponent` are digits. -/
structure Number where
  negative : Bool := false
  whole : ℕ
  fraction : List Char := []
  exponent : Option (Bool × List Char) := none
  deriving DecidableEq, Repr

inductive Value (S : Type) where
  | null
  | bool (b : Bool)
  | number (n : Number)
  | string (s : S)
  | array (elements : List (Value S))
  | object (members : List (S × Value S))

/-- The structural characters. -/
inductive Punctuation where
  | beginArray
  | beginObject
  | endArray
  | endObject
  | nameSeparator
  | valueSeparator
  deriving DecidableEq, Repr

inductive Token (S : Type) where
  | punctuation (p : Punctuation)
  | null
  | bool (b : Bool)
  | number (n : Number)
  | string (s : S)
  deriving DecidableEq, Repr

open Punctuation

/-! ## The tokens of a value -/

mutual

def tokens : Value S → List (Token S)
  | .null => [.null]
  | .bool b => [.bool b]
  | .number n => [.number n]
  | .string s => [.string s]
  | .array elements =>
    .punctuation beginArray :: elementTokens true elements ++ [.punctuation endArray]
  | .object members =>
    .punctuation beginObject :: memberTokens true members ++ [.punctuation endObject]

/-- The elements of an array, with a separator in front of all but the first. -/
def elementTokens : Bool → List (Value S) → List (Token S)
  | _, [] => []
  | first, v :: rest =>
    (if first then [] else [.punctuation valueSeparator]) ++ tokens v ++ elementTokens false rest

def memberTokens : Bool → List (S × Value S) → List (Token S)
  | _, [] => []
  | first, (name, v) :: rest =>
    (if first then [] else [.punctuation valueSeparator]) ++
      .string name :: .punctuation nameSeparator :: tokens v ++ memberTokens false rest

end

/-! ## The machine -/

/-- What is open around a value: an array with its elements so far, or an object with its
members so far and the name of the value. -/
inductive Frame (S : Type) where
  | array (elements : List (Value S))
  | object (members : List (S × Value S)) (name : S)

/-- What comes next. -/
inductive Mode (S : Type) where
  | value (stack : List (Frame S))
  /-- After `[`: an element or the end. -/
  | element (stack : List (Frame S))
  /-- After `{`: a name or the end. -/
  | member (stack : List (Frame S))
  /-- After the separator in an object. -/
  | name (members : List (S × Value S)) (stack : List (Frame S))
  | separator (members : List (S × Value S)) (name : S) (stack : List (Frame S))
  /-- After a value. -/
  | complete (v : Value S) (stack : List (Frame S))

/-- The first token of a value. -/
def beginValue (stack : List (Frame S)) : Token S → Option (Mode S)
  | .null => some (.complete .null stack)
  | .bool b => some (.complete (.bool b) stack)
  | .number n => some (.complete (.number n) stack)
  | .string s => some (.complete (.string s) stack)
  | .punctuation beginArray => some (.element stack)
  | .punctuation beginObject => some (.member stack)
  | .punctuation _ => none

def step : Mode S → Token S → Option (Mode S)
  | .value stack, t => beginValue stack t
  | .element stack, .punctuation endArray => some (.complete (.array []) stack)
  | .element stack, t => beginValue (.array [] :: stack) t
  | .member stack, .punctuation endObject => some (.complete (.object []) stack)
  | .member stack, .string name => some (.separator [] name stack)
  | .name members stack, .string name => some (.separator members name stack)
  | .separator members name stack, .punctuation nameSeparator =>
    some (.value (.object members name :: stack))
  | .complete v (.array elements :: stack), .punctuation valueSeparator =>
    some (.value (.array (elements ++ [v]) :: stack))
  | .complete v (.array elements :: stack), .punctuation endArray =>
    some (.complete (.array (elements ++ [v])) stack)
  | .complete v (.object members name :: stack), .punctuation valueSeparator =>
    some (.name (members ++ [(name, v)]) stack)
  | .complete v (.object members name :: stack), .punctuation endObject =>
    some (.complete (.object (members ++ [(name, v)])) stack)
  | _, _ => none

/-- The mode after some tokens. -/
def run (m : Mode S) (ts : List (Token S)) : Option (Mode S) :=
  ts.foldlM step m

def parseTokens (ts : List (Token S)) : Option (Value S) :=
  match run (.value []) ts with
  | some (.complete v []) => some v
  | _ => none

theorem run_cons (m : Mode S) (t : Token S) (ts : List (Token S)) :
    run m (t :: ts) = (step m t).bind fun m => run m ts := rfl

theorem run_append (m : Mode S) (ts ts' : List (Token S)) :
    run m (ts ++ ts') = (run m ts).bind fun m => run m ts' :=
  List.foldlM_append

/-! ## What has been read -/

/-- The elements with the separator behind each. -/
def openElements (elements : List (Value S)) : List (Token S) :=
  elements.flatMap fun v => tokens v ++ [.punctuation valueSeparator]

def openMembers (members : List (S × Value S)) : List (Token S) :=
  members.flatMap fun m => .string m.1 :: .punctuation nameSeparator :: tokens m.2 ++
    [.punctuation valueSeparator]

theorem elementTokens_snoc (first : Bool) (elements : List (Value S)) (v : Value S) :
    elementTokens first (elements ++ [v]) =
      (if first then [] else [.punctuation valueSeparator]) ++ openElements elements ++
        tokens v := by
  induction elements generalizing first with
  | nil => simp [elementTokens, openElements]
  | cons e elements ih =>
    rw [List.cons_append, elementTokens, ih false]
    simp [openElements]

theorem memberTokens_snoc (first : Bool) (members : List (S × Value S)) (name : S)
    (v : Value S) :
    memberTokens first (members ++ [(name, v)]) =
      (if first then [] else [.punctuation valueSeparator]) ++ openMembers members ++
        .string name :: .punctuation nameSeparator :: tokens v := by
  induction members generalizing first with
  | nil => simp [memberTokens, openMembers]
  | cons m members ih =>
    obtain ⟨name', v'⟩ := m
    rw [List.cons_append, memberTokens, ih false]
    simp [openMembers]

def Frame.read : Frame S → List (Token S)
  | .array elements => .punctuation beginArray :: openElements elements
  | .object members name => .punctuation beginObject :: openMembers members ++
      [.string name, .punctuation nameSeparator]

/-- The tokens in front of the value, from the outermost frame on. -/
def stackTokens (stack : List (Frame S)) : List (Token S) :=
  stack.reverse.flatMap Frame.read

theorem stackTokens_cons (frame : Frame S) (stack : List (Frame S)) :
    stackTokens (frame :: stack) = stackTokens stack ++ frame.read := by
  simp [stackTokens]

/-- The tokens that lead to a mode. -/
def Mode.read : Mode S → List (Token S)
  | .value stack => stackTokens stack
  | .element stack => stackTokens stack ++ [.punctuation beginArray]
  | .member stack => stackTokens stack ++ [.punctuation beginObject]
  | .name members stack =>
    stackTokens stack ++ .punctuation beginObject :: openMembers members
  | .separator members key stack =>
    stackTokens stack ++ .punctuation beginObject :: openMembers members ++ [.string key]
  | .complete v stack => stackTokens stack ++ tokens v

theorem read_beginValue {stack : List (Frame S)} {t : Token S} {m : Mode S}
    (h : beginValue stack t = some m) : m.read = stackTokens stack ++ [t] := by
  unfold beginValue at h
  split at h <;> cases h <;> simp [Mode.read, tokens]

/-- A step appends its token. -/
theorem read_step {m m' : Mode S} {t : Token S} (h : step m t = some m') :
    m'.read = m.read ++ [t] := by
  unfold step at h
  split at h
  · exact read_beginValue h
  · cases h
    simp [Mode.read, tokens, elementTokens]
  · rw [read_beginValue h, stackTokens_cons]
    simp [Mode.read, Frame.read, openElements]
  · cases h
    simp [Mode.read, tokens, memberTokens]
  · cases h
    simp [Mode.read, openMembers]
  · cases h
    simp [Mode.read]
  · cases h
    simp [Mode.read, stackTokens_cons, Frame.read]
  · cases h
    simp [Mode.read, stackTokens_cons, Frame.read, openElements]
  · cases h
    simp [Mode.read, stackTokens_cons, Frame.read, tokens, elementTokens_snoc]
  · cases h
    simp [Mode.read, stackTokens_cons, Frame.read, openMembers]
  · cases h
    simp [Mode.read, stackTokens_cons, Frame.read, tokens, memberTokens_snoc]
  · cases h

theorem read_run {m m' : Mode S} {ts : List (Token S)} (h : run m ts = some m') :
    m'.read = m.read ++ ts := by
  induction ts generalizing m with
  | nil =>
    cases h
    rw [List.append_nil]
  | cons t ts ih =>
    rw [run_cons] at h
    obtain ⟨m₁, hstep, hrest⟩ := Option.bind_eq_some_iff.mp h
    rw [ih hrest, read_step hstep, List.append_assoc, List.singleton_append]

/-! ## The tokens of a value are accepted -/

/-- The first token of a value does not end an array. -/
theorem run_element (v : Value S) (rest : List (Token S)) (stack : List (Frame S)) :
    run (.element stack) (tokens v ++ rest) =
      run (.value (.array [] :: stack)) (tokens v ++ rest) := by
  cases v <;> rfl

mutual

theorem run_value : ∀ (v : Value S) (stack : List (Frame S)),
    run (.value stack) (tokens v) = some (.complete v stack)
  | .null, _ => rfl
  | .bool _, _ => rfl
  | .number _, _ => rfl
  | .string _, _ => rfl
  | .array [], _ => rfl
  | .array (v :: rest), stack => by
    have hfirst := run_value v (.array [] :: stack)
    have hrest := run_elements rest v [] stack
    rw [tokens, elementTokens]
    show run (.element stack) (tokens v ++ _ ++ _) = _
    rw [List.append_assoc, run_element, run_append, hfirst]
    exact hrest
  | .object [], _ => rfl
  | .object ((name, v) :: rest), stack => by
    have hfirst := run_value v (.object [] name :: stack)
    have hrest := run_members rest v name [] stack
    rw [tokens, memberTokens]
    show run (.value (.object [] name :: stack)) (tokens v ++ _ ++ _) = _
    rw [List.append_assoc, run_append, hfirst]
    exact hrest

/-- From an element to the end of its array. -/
theorem run_elements : ∀ (rest : List (Value S)) (v : Value S) (elements : List (Value S))
    (stack : List (Frame S)),
    run (.complete v (.array elements :: stack))
        (elementTokens false rest ++ [.punctuation endArray]) =
      some (.complete (.array (elements ++ v :: rest)) stack)
  | [], _, _, _ => rfl
  | v' :: rest, v, elements, stack => by
    have hnext := run_value v' (.array (elements ++ [v]) :: stack)
    have hrest := run_elements rest v' (elements ++ [v]) stack
    rw [elementTokens]
    show run (.value (.array (elements ++ [v]) :: stack)) (tokens v' ++ _ ++ _) = _
    rw [List.append_assoc, run_append, hnext]
    rw [List.append_assoc] at hrest
    exact hrest

/-- From a member to the end of its object. -/
theorem run_members : ∀ (rest : List (S × Value S)) (v : Value S) (name : S)
    (members : List (S × Value S)) (stack : List (Frame S)),
    run (.complete v (.object members name :: stack))
        (memberTokens false rest ++ [.punctuation endObject]) =
      some (.complete (.object (members ++ (name, v) :: rest)) stack)
  | [], _, _, _, _ => rfl
  | (name', v') :: rest, v, name, members, stack => by
    have hnext := run_value v' (.object (members ++ [(name, v)]) name' :: stack)
    have hrest := run_members rest v' name' (members ++ [(name, v)]) stack
    rw [memberTokens]
    show run (.value (.object (members ++ [(name, v)]) name' :: stack)) (tokens v' ++ _ ++ _) = _
    rw [List.append_assoc, run_append, hnext]
    rw [List.append_assoc] at hrest
    exact hrest

end

/-- The parser accepts the tokens of a value, and nothing else. -/
theorem parseTokens_eq_some_iff {ts : List (Token S)} {v : Value S} :
    parseTokens ts = some v ↔ ts = tokens v := by
  constructor
  · intro h
    unfold parseTokens at h
    split at h
    · next hrun =>
      cases h
      have hread := read_run hrun
      simpa [Mode.read, stackTokens] using hread.symm
    · cases h
  · intro h
    rw [h, parseTokens, run_value v []]

end Lib.Json
