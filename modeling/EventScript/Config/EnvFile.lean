import EventScript.Config.Environment

/-!
# Environment files

A file of lines `NAME=value` that gives values to variables which have none. A line may
start with `export`; blank lines and comments are skipped. A value may be quoted: double
quotes keep blanks, single quotes keep every character, and an open quote goes on over
line ends. Outside single quotes `$NAME` stands for the value of a variable, or for
nothing, and a backslash keeps the next character. A malformed line ends the file; the
lines before it stand.

Specification: `SPEC_FULL.md` §11.3 (the `.env` of the player).
-/

namespace EventScript

namespace EnvFile

/-- White space. -/
def isSpace (c : Char) : Bool :=
  let n := c.toNat
  (9 ≤ n && n ≤ 13) || n = 32 || n = 0x85 || n = 0xA0 || n = 0x1680
    || (0x2000 ≤ n && n ≤ 0x200A) || n = 0x2028 || n = 0x2029 || n = 0x202F || n = 0x205F || n = 0x3000

/-! ### Lines -/

/-- Where the search for the end of a line stands. -/
inductive LineState where
  | plain
  /-- After a blank that begins a run of blanks. -/
  | blank
  | escape
  | single
  | singleEscape
  | double
  | doubleEscape
  /-- In a comment, which is no part of the line. -/
  | comment
  deriving DecidableEq, Repr

/-- The state after a character outside quotes. -/
def LineState.opened (c : Char) : LineState :=
  if c = '\\' then .escape
  else if c = '"' then .double
  else if c = '\x27' then .single
  else .plain

/-- The state after a character. -/
def LineState.next (c : Char) : LineState → LineState
  | .plain => if isSpace c ∧ c ≠ '\n' ∧ c ≠ '\r' then .blank else .opened c
  | .blank => if c = '#' then .comment else .opened c
  | .escape => .plain
  | .single => if c = '\\' then .singleEscape else if c = '\x27' then .plain else .single
  | .singleEscape => .single
  | .double => if c = '\\' then .doubleEscape else if c = '"' then .plain else .double
  | .doubleEscape => .double
  | .comment => .comment

/-- The lines of a text, after the characters of the first of them in `read` (in reverse).
A text that ends within quotes, or right after a blank or a backslash, has a last line
without value. -/
def lines (state : LineState) (read : List Char) : List Char → List (Option (List Char))
  | [] =>
    if state = .plain ∨ state = .comment then
      if read.isEmpty then [] else [some read.reverse]
    else [none]
  | c :: rest =>
    if state = .comment then
      if c = '\n' then some read.reverse :: lines .plain [] rest else lines .comment read rest
    else if c = '#' ∧ read.all isSpace then lines .comment read rest
    else
      let state := state.next c
      if c = '\n' ∧ state = .plain then some read.reverse :: lines .plain [] rest
      else if state = .comment then lines .comment read rest
      else lines state (c :: read) rest

/-! ### Values -/

/-- Where the reading of a value stands. `quoted` says that a double quote is open. -/
inductive ValueState where
  | text (quoted : Bool)
  | verbatim
  | escape (quoted : Bool)
  /-- In the name of a variable; its characters in reverse. -/
  | name (quoted : Bool) (read : List Char)
  | braced (quoted : Bool) (read : List Char)
  /-- After the value, before the end of the line or a comment. -/
  | ended
  | comment
  deriving Repr

/-- Add the value of a variable to what is written (in reverse). -/
def substitute (env : Variables) (name : List Char) (written : List Char) : List Char :=
  ((env (String.ofList name.reverse)).getD "").toList.reverse ++ written

/-- One character of a value: what is written after it (in reverse), and the state. -/
def valueStep? (env : Variables) (written : List Char) (c : Char) :
    ValueState → Option (List Char × ValueState)
  | .text quoted =>
    if c = '$' then some (written, .name quoted [])
    else if c = '\\' then some (written, .escape quoted)
    else if c = '"' then some (written, .text (!quoted))
    else if quoted then some (c :: written, .text quoted)
    else if c = '\x27' then some (written, .verbatim)
    else if c = ' ' ∨ c = '\t' then some (written, .ended)
    else some (c :: written, .text quoted)
  | .verbatim => if c = '\x27' then some (written, .text false) else some (c :: written, .verbatim)
  | .escape quoted =>
    if c = 'n' then some ('\n' :: written, .text quoted)
    else if ['\\', '\x27', '"', '$', ' '].contains c then some (c :: written, .text quoted)
    else none
  | .name quoted read =>
    if c.isAlphanum then some (written, .name quoted (c :: read))
    else if c = '\x7b' ∧ read.isEmpty then some (written, .braced quoted [])
    else if c = '$' then some (substitute env read written, .name quoted [])
    else some (c :: substitute env read written, .text quoted)
  | .braced quoted read =>
    if c = '\x7d' then some (substitute env read written, .text quoted)
    else some (written, .braced quoted (c :: read))
  | .ended =>
    if c = ' ' ∨ c = '\t' then some (written, .ended)
    else if c = '#' then some (written, .comment)
    else none
  | .comment => some (written, .comment)

/-- What the end of a line leaves written (in reverse): nothing within quotes. -/
def valueEnd? (env : Variables) (written : List Char) : ValueState → Option (List Char)
  | .text false => some written
  | .escape false => some written
  | .name false read => some (substitute env read written)
  | .ended => some written
  | .comment => some written
  | _ => none

/-- The value that a line gives, from a state on. -/
def value? (env : Variables) (written : List Char) (state : ValueState) :
    List Char → Option String
  | [] => (valueEnd? env written state).map fun cs => String.ofList cs.reverse
  | c :: rest =>
    match valueStep? env written c state with
    | some (written, state) => value? env written state rest
    | none => none

/-! ### Assignments -/

/-- A name and what follows it and blanks. -/
def name? (cs : List Char) : Option (String × List Char) :=
  let isNameChar (c : Char) : Bool := c.isAlphanum || c = '_' || c = '.'
  match cs with
  | [] => none
  | c :: _ =>
    if c.isAlpha ∨ c = '_' then
      some (String.ofList (cs.takeWhile isNameChar), (cs.dropWhile isNameChar).dropWhile isSpace)
    else none

/-- What follows an equals sign and blanks. -/
def equals? : List Char → Option (List Char)
  | '=' :: rest => some (rest.dropWhile isSpace)
  | _ => none

/-- The name that a line assigns to, and the text of the value. -/
def target? (cs : List Char) : Option (String × List Char) := do
  let (name, rest) ← name? cs
  if name = "export" ∧ (equals? rest).isNone then
    let (name, rest) ← name? rest
    return (name, ← equals? rest)
  else return (name, ← equals? rest)

/-- The variables after a line, or nothing where it is malformed. -/
def after? (env : Variables) (line : List Char) : Option Variables :=
  match (line.reverse.dropWhile isSpace).reverse.dropWhile isSpace with
  | [] => some env
  | '#' :: _ => some env
  | cs => do
    let (name, text) ← target? cs
    let value ← if text.head? = some '#' then some "" else value? env [] (.text false) text
    return if (env name).isSome then env else env.set name value

/-- The variables after lines, up to the first that is malformed. -/
def afterAll (env : Variables) : List (Option (List Char)) → Variables
  | some line :: rest =>
    match after? env line with
    | some env => afterAll env rest
    | none => env
  | _ => env

end EnvFile

/-- The variables, with those that a file gives a value and that had none. -/
def Variables.withFile (env : Variables) (text : String) : Variables :=
  let cs :=
    match text.toList with
    | '\ufeff' :: rest => rest
    | cs => cs
  EnvFile.afterAll env (EnvFile.lines .plain [] cs)

end EventScript
