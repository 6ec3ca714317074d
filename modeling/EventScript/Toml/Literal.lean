import EventScript.Json.Document

/-!
# TOML literals

Strings of one line and the words that stand for numbers and truth values. An integer has
64 bits with its sign. Integers may be written in base sixteen, eight or two, and a single
underscore may stand between two digits. Dates and strings of several lines are left out.

Specification: `SPEC_FULL.md` §11.3 (the `--config` file).
-/

namespace EventScript.Toml

/-- A character that may stand in a string or a comment. -/
def isText (c : Char) : Bool := c = '\t' || (32 ≤ c.toNat && c.toNat ≠ 127)

/-- A blank within a line. -/
def isBlank (c : Char) : Bool := c = ' ' || c = '\t'

/-! ### Strings -/

/-- The character that hexadecimal digits number. -/
def scalar? (digits : List Char) : Option Char := do
  let n ← digits.foldlM (fun n c => (Document.hexDigit? c).map (16 * n + ·)) 0
  if n.isValidChar then some (Char.ofNat n) else none

/-- The character of an escape of one letter. -/
def shortEscape? (c : Char) : Option Char := if c = '/' then none else Document.shortEscape? c

/-- The rest of a string in double quotes, after the characters in `read` (in reverse), and
what follows it. -/
def basic? (read : List Char) : List Char → Option (String × List Char)
  | [] => none
  | '"' :: rest => some (String.ofList read.reverse, rest)
  | '\\' :: 'u' :: a :: b :: c :: d :: rest =>
    match scalar? [a, b, c, d] with
    | some e => basic? (e :: read) rest
    | none => none
  | '\\' :: 'U' :: a :: b :: c :: d :: e :: f :: g :: h :: rest =>
    match scalar? [a, b, c, d, e, f, g, h] with
    | some e => basic? (e :: read) rest
    | none => none
  | '\\' :: c :: rest =>
    match shortEscape? c with
    | some e => basic? (e :: read) rest
    | none => none
  | c :: rest => if c ≠ '\\' ∧ isText c then basic? (c :: read) rest else none

/-- The rest of a string in single quotes, which has no escapes, and what follows it. -/
def verbatim? (cs : List Char) : Option (String × List Char) :=
  let body := cs.takeWhile (· ≠ '\x27')
  match cs.dropWhile (· ≠ '\x27') with
  | _ :: rest => if body.all isText then some (String.ofList body, rest) else none
  | [] => none

/-! ### Words -/

/-- A character of a number or a truth value. -/
def isWordChar (c : Char) : Bool :=
  c.isAlphanum || c = '_' || c = '+' || c = '-' || c = '.'

/-- Drop the underscores, each of which has to stand between two digits; `after` says that
a digit stands before the text. -/
def dropUnderscores? (isDigit : Char → Bool) (after : Bool) : List Char → Option (List Char)
  | [] => some []
  | '_' :: c :: rest =>
    if after && isDigit c then (dropUnderscores? isDigit true rest).map (c :: ·) else none
  | c :: rest =>
    if c = '_' then none
    else (dropUnderscores? isDigit (isDigit c) rest).map (c :: ·)

/-- The value of a digit below `base`. -/
def digit? (base : Nat) (c : Char) : Option Nat :=
  (Document.hexDigit? c).filter (· < base)

/-- The integer that digits of a base write. -/
def ofBase? (base : Nat) (digits : List Char) : Option Json := do
  let digits ← dropUnderscores? (fun c => (digit? base c).isSome) false digits
  if digits.isEmpty then none
  else
    let n ← digits.foldlM (fun n c => (digit? base c).map (base * n + ·)) 0
    if n < 0x8000_0000_0000_0000 then some (.int n) else none

/-- The number that a literal writes: an integer without fraction and exponent, in range,
or something that no setting takes. -/
def ofNumber? (l : NumberLiteral) : Option Json :=
  match l.fraction, l.exponent with
  | none, none =>
    let n := NumberLiteral.digitsValue 0 l.whole
    if l.negative then if n ≤ 0x8000_0000_0000_0000 then some (.int (-(n : Int))) else none
    else if n < 0x8000_0000_0000_0000 then some (.int n) else none
  | _, _ => if l.isFinite then some (.real l.text) else none

/-- A decimal number, with an optional sign. -/
def ofDecimal? (cs : List Char) : Option Json := do
  let cs ← dropUnderscores? Char.isDigit false cs
  match cs with
  | '+' :: '-' :: _ => none
  | '+' :: rest => (NumberLiteral.ofChars? rest).bind ofNumber?
  | cs => (NumberLiteral.ofChars? cs).bind ofNumber?

/-- The value of a word. -/
def ofWord? (cs : List Char) : Option Json :=
  match String.ofList cs with
  | "true" => some (.bool true)
  | "false" => some (.bool false)
  | "inf" | "+inf" | "-inf" | "nan" | "+nan" | "-nan" => some (.real (String.ofList cs))
  | _ =>
    match cs with
    | '0' :: 'x' :: digits => ofBase? 16 digits
    | '0' :: 'o' :: digits => ofBase? 8 digits
    | '0' :: 'b' :: digits => ofBase? 2 digits
    | cs => ofDecimal? cs

end EventScript.Toml
