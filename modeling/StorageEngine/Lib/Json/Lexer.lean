import StorageEngine.Lib.Json.Grammar

/-!
# The JSON tokens of a text

RFC 8259, sections 2, 3, 6 and 7, over the characters of a text.  `lexStep` is a machine
that takes one character at a time.  An escape that names one half of a surrogate pair
without the other names no character and is rejected.

`Piece` is what a writer appends that does not escape its strings.  `lex_pieces_iff` says
when its text has the tokens that the writer meant: exactly when no character of a string
needed an escape.
-/

namespace Lib.Json

open Punctuation

/-! ## Strings -/

/-- The characters that a string contains as they are. -/
def Unescaped (c : Char) : Prop := c ≠ '"' ∧ c ≠ '\\' ∧ 0x20 ≤ c.toNat

instance (c : Char) : Decidable (Unescaped c) := inferInstanceAs (Decidable (_ ∧ _ ∧ _))

/-- The inside of a string, with the characters that have been read. -/
inductive Reading where
  | plain (read : List Char)
  /-- After a backslash. -/
  | escape (read : List Char)
  /-- After `\u` and some of the four digits.  `high` is the first half of a pair. -/
  | unicode (read : List Char) (high : Option ℕ) (digits value : ℕ)
  /-- After the first half of a pair. -/
  | half (read : List Char) (high : ℕ)
  | halfEscape (read : List Char) (high : ℕ)
  deriving DecidableEq, Repr

def Reading.read : Reading → List Char
  | .plain read => read
  | .escape read => read
  | .unicode read _ _ _ => read
  | .half read _ => read
  | .halfEscape read _ => read

/-- A quote ends the string here. -/
def Reading.isPlain : Reading → Bool
  | .plain _ => true
  | _ => false

/-- The character that a backslash and this one stand for. -/
def escaped : Char → Option Char
  | '"' => some '"'
  | '\\' => some '\\'
  | '/' => some '/'
  | 'b' => some '\x08'
  | 'f' => some '\x0c'
  | 'n' => some '\n'
  | 'r' => some '\r'
  | 't' => some '\t'
  | _ => none

def hexDigit (c : Char) : Option ℕ :=
  if c.isDigit then some (c.toNat - '0'.toNat)
  else if 'a'.toNat ≤ c.toNat ∧ c.toNat ≤ 'f'.toNat then some (c.toNat - 'a'.toNat + 10)
  else if 'A'.toNat ≤ c.toNat ∧ c.toNat ≤ 'F'.toNat then some (c.toNat - 'A'.toNat + 10)
  else none

/-- After the four digits of a code unit. -/
def codeUnit (read : List Char) (high : Option ℕ) (unit : ℕ) : Option Reading :=
  match high with
  | none =>
    if 0xD800 ≤ unit ∧ unit < 0xDC00 then some (.half read unit)
    else if 0xDC00 ≤ unit ∧ unit < 0xE000 then none
    else some (.plain (read ++ [Char.ofNat unit]))
  | some high =>
    if 0xDC00 ≤ unit ∧ unit < 0xE000 then
      some (.plain (read ++
        [Char.ofNat (0x10000 + (high - 0xD800) * 0x400 + (unit - 0xDC00))]))
    else none

/-- A character inside a string that does not end it. -/
def readChar : Reading → Char → Option Reading
  | .plain read, c =>
    if c = '\\' then some (.escape read)
    else if Unescaped c then some (.plain (read ++ [c]))
    else none
  | .escape read, c =>
    if c = 'u' then some (.unicode read none 0 0)
    else (escaped c).map fun c => .plain (read ++ [c])
  | .unicode read high digits value, c =>
    (hexDigit c).bind fun d =>
      if digits < 3 then some (.unicode read high (digits + 1) (value * 16 + d))
      else codeUnit read high (value * 16 + d)
  | .half read high, c => if c = '\\' then some (.halfEscape read high) else none
  | .halfEscape read high, c => if c = 'u' then some (.unicode read (some high) 0 0) else none

/-! ## Numbers -/

inductive NumberPart where
  | minus
  | zero
  | int
  | point
  | fraction
  | exponent
  | sign
  | power
  deriving DecidableEq, Repr

/-- A number can end after this part. -/
def NumberPart.finished : NumberPart → Bool
  | .zero => true
  | .int => true
  | .fraction => true
  | .power => true
  | _ => false

/-- What may follow the integer part. -/
def afterInt (n : Number) (c : Char) : Option (NumberPart × Number) :=
  if c = '.' then some (.point, n)
  else if c = 'e' ∨ c = 'E' then some (.exponent, n)
  else none

/-- A character inside a number. -/
def numberStep : NumberPart → Number → Char → Option (NumberPart × Number)
  | .minus, n, c =>
    if c = '0' then some (.zero, n)
    else if c.isDigit then some (.int, { n with whole := c.toNat - '0'.toNat })
    else none
  | .zero, n, c => afterInt n c
  | .int, n, c =>
    if c.isDigit then some (.int, { n with whole := 10 * n.whole + (c.toNat - '0'.toNat) })
    else afterInt n c
  | .point, n, c =>
    if c.isDigit then some (.fraction, { n with fraction := [c] }) else none
  | .fraction, n, c =>
    if c.isDigit then some (.fraction, { n with fraction := n.fraction ++ [c] })
    else if c = 'e' ∨ c = 'E' then some (.exponent, n)
    else none
  | .exponent, n, c =>
    if c = '+' ∨ c = '-' then some (.sign, { n with exponent := some (c == '-', []) })
    else if c.isDigit then some (.power, { n with exponent := some (false, [c]) })
    else none
  | .sign, n, c =>
    if c.isDigit then
      some (.power, { n with exponent := n.exponent.map fun e => (e.1, [c]) })
    else none
  | .power, n, c =>
    if c.isDigit then
      some (.power, { n with exponent := n.exponent.map fun e => (e.1, e.2 ++ [c]) })
    else none

/-! ## The machine -/

inductive LexMode where
  | between
  | string (r : Reading)
  | number (part : NumberPart) (n : Number)
  /-- Inside `true`, `false` or `null`. -/
  | word (rest : List Char) (t : Token (List Char))
  deriving DecidableEq, Repr

/-- The tokens so far, and where the machine stands. -/
abbrev LexState := List (Token (List Char)) × LexMode

/-- The first character of a token, or whitespace. -/
def beginToken (done : List (Token (List Char))) (c : Char) : Option LexState :=
  match c with
  | ' ' => some (done, .between)
  | '\t' => some (done, .between)
  | '\n' => some (done, .between)
  | '\r' => some (done, .between)
  | '[' => some (done ++ [.punctuation beginArray], .between)
  | '{' => some (done ++ [.punctuation beginObject], .between)
  | ']' => some (done ++ [.punctuation endArray], .between)
  | '}' => some (done ++ [.punctuation endObject], .between)
  | ':' => some (done ++ [.punctuation nameSeparator], .between)
  | ',' => some (done ++ [.punctuation valueSeparator], .between)
  | '"' => some (done, .string (.plain []))
  | 't' => some (done, .word ['r', 'u', 'e'] (.bool true))
  | 'f' => some (done, .word ['a', 'l', 's', 'e'] (.bool false))
  | 'n' => some (done, .word ['u', 'l', 'l'] .null)
  | '-' => some (done, .number .minus { negative := true, whole := 0 })
  | '0' => some (done, .number .zero { whole := 0 })
  | c =>
    if c.isDigit then some (done, .number .int { whole := c.toNat - '0'.toNat }) else none

def lexStep : LexState → Char → Option LexState
  | (done, .between), c => beginToken done c
  | (done, .string r), c =>
    if c = '"' ∧ r.isPlain then some (done ++ [.string r.read], .between)
    else (readChar r c).map fun r => (done, .string r)
  | (done, .number part n), c =>
    match numberStep part n c with
    | some (part, n) => some (done, .number part n)
    | none => if part.finished then beginToken (done ++ [.number n]) c else none
  | (done, .word rest t), c =>
    match rest with
    | [] => none
    | c' :: rest =>
      if c ≠ c' then none
      else if rest = [] then some (done ++ [t], .between)
      else some (done, .word rest t)

/-- The tokens, when the text can end here. -/
def lexEnd : LexState → Option (List (Token (List Char)))
  | (done, .between) => some done
  | (done, .number part n) => if part.finished then some (done ++ [.number n]) else none
  | _ => none

/-- The tokens of a text from a state of the machine. -/
def lexFrom (st : LexState) (cs : List Char) : Option (List (Token (List Char))) :=
  (cs.foldlM lexStep st).bind lexEnd

def lex (cs : List Char) : Option (List (Token (List Char))) :=
  lexFrom ([], .between) cs

/-- The value of a text. -/
def parse (cs : List Char) : Option (Value (List Char)) :=
  (lex cs).bind parseTokens

theorem lexFrom_nil (st : LexState) : lexFrom st [] = lexEnd st := rfl

theorem lexFrom_cons (st : LexState) (c : Char) (cs : List Char) :
    lexFrom st (c :: cs) = (lexStep st c).bind fun st => lexFrom st cs :=
  Option.bind_assoc _ _ _

end Lib.Json
