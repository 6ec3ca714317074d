import EventScript.Json.Record

/-!
# JSON documents

A document is a text read by the grammar alone: numbers stay literals, a string that
holds half of a surrogate pair stays without a value, and repeated keys stay. `toJson`
then asks for a value: it bounds the nesting of arrays and objects, refuses strings
without a value and numbers beyond the range of a double, and lets the last of several
equal keys win. A reader of a record looks only at the members it knows, so what the
others hold need not have a value.

The text is cut into tokens character by character, and the tokens drive a machine whose
stack is the list of open arrays and objects. Both recur on their input.
-/

namespace EventScript

/-- A number as it is written. -/
structure NumberLiteral where
  negative : Bool
  whole : List Char
  /-- The digits after the point. -/
  fraction : Option (List Char)
  /-- The exponent is negative, and its digits. -/
  exponent : Option (Bool × List Char)
  deriving Repr

namespace NumberLiteral

/-- The value of digits after `acc`. -/
def digitsValue (acc : Nat) (digits : List Char) : Nat :=
  digits.foldl (fun n c => 10 * n + (c.toNat - 48)) acc

/-- At least one digit and what follows the digits. -/
def takeDigits? (cs : List Char) : Option (List Char × List Char) :=
  match cs.takeWhile Char.isDigit with
  | [] => none
  | digits => some (digits, cs.dropWhile Char.isDigit)

/-- The digits before the point: no zero in front of another digit. -/
def takeWhole? (cs : List Char) : Option (List Char × List Char) :=
  match takeDigits? cs with
  | some ('0' :: _ :: _, _) => none
  | other => other

/-- The sign and digits of an exponent. -/
def takeExponent? : List Char → Option ((Bool × List Char) × List Char)
  | '-' :: cs => (takeDigits? cs).map fun r => ((true, r.1), r.2)
  | '+' :: cs => (takeDigits? cs).map fun r => ((false, r.1), r.2)
  | cs => (takeDigits? cs).map fun r => ((false, r.1), r.2)

/-- The characters a number may hold. -/
def isNumberChar (c : Char) : Bool :=
  c.isDigit || c = '-' || c = '+' || c = '.' || c = 'e' || c = 'E'

/-- The literal that a run of characters spells. -/
def ofChars? (cs : List Char) : Option NumberLiteral := do
  let (negative, cs) := match cs with
    | '-' :: rest => (true, rest)
    | other => (false, other)
  let (whole, cs) ← takeWhole? cs
  let (fraction, cs) ← match cs with
    | '.' :: rest => (takeDigits? rest).map fun r => (some r.1, r.2)
    | other => some (none, other)
  let (exponent, cs) ← match cs with
    | 'e' :: rest => (takeExponent? rest).map fun r => (some r.1, r.2)
    | 'E' :: rest => (takeExponent? rest).map fun r => (some r.1, r.2)
    | other => some (none, other)
  if cs.isEmpty then some { negative, whole, fraction, exponent } else none

/-- The text of the literal. -/
def text (l : NumberLiteral) : String :=
  String.ofList <|
    (if l.negative then ['-'] else []) ++ l.whole
      ++ (match l.fraction with
        | some digits => '.' :: digits
        | none => [])
      ++ (match l.exponent with
        | some (true, digits) => 'e' :: '-' :: digits
        | some (false, digits) => 'e' :: digits
        | none => [])

/-- Take digits while the significand fits a 64-bit word; the rest of them is left. -/
def significand (acc : Nat) : List Char → Nat × List Char
  | [] => (acc, [])
  | c :: rest =>
    if 10 * acc + (c.toNat - 48) ≤ 0xFFFF_FFFF_FFFF_FFFF then
      significand (10 * acc + (c.toNat - 48)) rest
    else (acc, c :: rest)

/-- The significand of at most 64 bits and the power of ten that scales it. -/
def scaled (l : NumberLiteral) : Nat × Int :=
  let (head, dropped) := significand 0 l.whole
  let (m, used) := match l.fraction with
    | none => (head, 0)
    | some digits =>
      let (m, rest) := if dropped.isEmpty then significand head digits else (head, digits)
      (m, digits.length - rest.length)
  let e := match l.exponent with
    | none => 0
    | some (negative, digits) =>
      if negative then -(digitsValue 0 digits : Int) else digitsValue 0 digits
  (m, dropped.length - used + e)

/-- The scaled significand does not overflow a double. -/
def isFinite (l : NumberLiteral) : Bool :=
  let (m, e) := l.scaled
  m = 0 || e < 0 ||
    (e ≤ 308 && !((UInt64.ofNat m).toFloat * Float.ofScientific 1 false e.toNat).isInf)

/-- An integer of 64 bits with its sign, but not minus zero. -/
def integer? (l : NumberLiteral) : Option Int :=
  match l.fraction, l.exponent with
  | none, none =>
    let n := digitsValue 0 l.whole
    if l.negative then
      if 0 < n ∧ n ≤ 0x8000_0000_0000_0000 then some (-(n : Int)) else none
    else if n ≤ 0xFFFF_FFFF_FFFF_FFFF then some n else none
  | _, _ => none

/-- The value of the literal. -/
def toJson (l : NumberLiteral) : Option Json :=
  match l.integer? with
  | some n => some (.int n)
  | none => if l.isFinite then some (.real l.text) else none

end NumberLiteral

/-- A text read by the grammar of JSON. -/
inductive Document where
  | null
  | bool (value : Bool)
  | number (literal : NumberLiteral)
  /-- A string, without a value where it holds half of a surrogate pair. -/
  | string (value : Option String)
  | array (items : List Document)
  | object (members : List (Option String × Document))
  deriving Repr

namespace Document

/-! ### Strings -/

/-- The value of a hexadecimal digit. -/
def hexDigit? (c : Char) : Option Nat :=
  if c.isDigit then some (c.toNat - 48)
  else if 'a' ≤ c ∧ c ≤ 'f' then some (c.toNat - 87)
  else if 'A' ≤ c ∧ c ≤ 'F' then some (c.toNat - 55)
  else none

/-- The code unit that four hexadecimal digits write. -/
def codeUnit? (a b c d : Char) : Option Nat := do
  return 4096 * (← hexDigit? a) + 256 * (← hexDigit? b) + 16 * (← hexDigit? c)
    + (← hexDigit? d)

/-- The character of an escape of one letter. -/
def shortEscape? (c : Char) : Option Char :=
  match c with
  | '"' => some '"'
  | '\\' => some '\\'
  | '/' => some '/'
  | 'b' => some (Char.ofNat 8)
  | 'f' => some (Char.ofNat 12)
  | 'n' => some '\n'
  | 'r' => some '\r'
  | 't' => some '\t'
  | _ => none

/-- A code unit as a piece of a string: a character, or one half of a pair. -/
inductive Piece where
  | whole (c : Char)
  | high (unit : Nat)
  | low (unit : Nat)

/-- The piece that a code unit is. -/
def Piece.ofUnit (u : Nat) : Piece :=
  if 0xD800 ≤ u ∧ u < 0xDC00 then .high u
  else if 0xDC00 ≤ u ∧ u < 0xE000 then .low u
  else .whole (Char.ofNat u)

/-- The pieces between two quotes, after those in `before` (in reverse), or nothing for a
bad escape or a control character. -/
def pieces? (before : List Piece) : List Char → Option (List Piece)
  | [] => some before.reverse
  | '\\' :: 'u' :: a :: b :: c :: d :: rest =>
    match codeUnit? a b c d with
    | some u => pieces? (.ofUnit u :: before) rest
    | none => none
  | '\\' :: c :: rest =>
    match shortEscape? c with
    | some e => pieces? (.whole e :: before) rest
    | none => none
  | c :: rest =>
    if c = '\\' ∨ c.toNat < 32 then none else pieces? (.whole c :: before) rest

/-- Join pairs of halves after the characters in `before` (in reverse); a half alone has
no character. -/
def joinPieces? (before : List Char) : List Piece → Option (List Char)
  | [] => some before.reverse
  | .whole c :: rest => joinPieces? (c :: before) rest
  | .high h :: .low l :: rest =>
    joinPieces? (Char.ofNat (0x10000 + 1024 * (h - 0xD800) + (l - 0xDC00)) :: before) rest
  | _ :: _ => none

/-- The string between two quotes: nothing where it is malformed. -/
def string? (raw : List Char) : Option (Option String) :=
  (pieces? [] raw).map fun ps => (joinPieces? [] ps).map String.ofList

/-! ### Tokens -/

/-- A word of the grammar. -/
inductive Token where
  | openArray
  | closeArray
  | openObject
  | closeObject
  | comma
  | colon
  | null
  | bool (value : Bool)
  | number (literal : NumberLiteral)
  | string (value : Option String)

/-- Where the cutting of tokens stands between two characters. Read characters are kept
in reverse. -/
inductive LexState where
  | between
  | word (read : List Char)
  | number (read : List Char)
  | string (read : List Char)
  /-- In a string, after a backslash. -/
  | escape (read : List Char)

/-- The token of a run of letters. -/
def wordToken? (read : List Char) : Option Token :=
  match String.ofList read.reverse with
  | "null" => some .null
  | "true" => some (.bool true)
  | "false" => some (.bool false)
  | _ => none

/-- A character between tokens: the token it is, if any, and the state after it. -/
def openToken? (c : Char) : Option (List Token × LexState) :=
  if c = ' ' ∨ c = '\t' ∨ c = '\n' ∨ c = '\r' then some ([], .between)
  else if c = '[' then some ([.openArray], .between)
  else if c = ']' then some ([.closeArray], .between)
  else if c = '\x7b' then some ([.openObject], .between)
  else if c = '\x7d' then some ([.closeObject], .between)
  else if c = ',' then some ([.comma], .between)
  else if c = ':' then some ([.colon], .between)
  else if c = '"' then some ([], .string [])
  else if c.isDigit ∨ c = '-' then some ([], .number [c])
  else if c.isAlpha then some ([], .word [c])
  else none

/-- One character: the tokens it ends or is, and the state after it. -/
def lexStep? (c : Char) : LexState → Option (List Token × LexState)
  | .between => openToken? c
  | .word read =>
    if c.isAlpha then some ([], .word (c :: read))
    else do
      let token ← wordToken? read
      let (tokens, state) ← openToken? c
      return (token :: tokens, state)
  | .number read =>
    if NumberLiteral.isNumberChar c then some ([], .number (c :: read))
    else do
      let literal ← NumberLiteral.ofChars? read.reverse
      let (tokens, state) ← openToken? c
      return (.number literal :: tokens, state)
  | .string read =>
    if c = '"' then (string? read.reverse).map fun s => ([.string s], .between)
    else if c = '\\' then some ([], .escape (c :: read))
    else some ([], .string (c :: read))
  | .escape read => some ([], .string (c :: read))

/-- The tokens that the end of the text ends. -/
def lexEnd? : LexState → Option (List Token)
  | .between => some []
  | .word read => (wordToken? read).map fun t => [t]
  | .number read => (NumberLiteral.ofChars? read.reverse).map fun l => [.number l]
  | .string _ => none
  | .escape _ => none

/-- The tokens of a text from a state on, after those in `before` (in reverse). -/
def tokens? (before : List Token) (state : LexState) : List Char → Option (List Token)
  | [] => (lexEnd? state).map fun last => before.reverse ++ last
  | c :: rest =>
    match lexStep? c state with
    | some (now, next) => tokens? (now.reverse ++ before) next rest
    | none => none

/-! ### The machine -/

/-- An open array or object. Its items and members are kept in reverse. -/
inductive Frame where
  | array (items : List Document)
  | object (members : List (Option String × Document)) (key : Option String)

/-- What the machine takes next. -/
inductive Expect where
  | value
  /-- The first item of an array, or its end. -/
  | firstItem
  /-- The first key of an object, or its end. -/
  | firstKey
  | key (members : List (Option String × Document))
  | colon (members : List (Option String × Document)) (key : Option String)
  /-- A comma or the end of the innermost container. -/
  | more
  /-- Nothing: the document is complete. -/
  | nothing (document : Document)

/-- Hand a complete value to the innermost container. -/
def deliver (d : Document) : List Frame → List Frame × Expect
  | [] => ([], .nothing d)
  | .array items :: stack => (.array (d :: items) :: stack, .more)
  | .object members key :: stack => (.object ((key, d) :: members) key :: stack, .more)

/-- A token where a value starts. -/
def takeValue? (stack : List Frame) : Token → Option (List Frame × Expect)
  | .null => some (deliver .null stack)
  | .bool b => some (deliver (.bool b) stack)
  | .number l => some (deliver (.number l) stack)
  | .string s => some (deliver (.string s) stack)
  | .openArray => some (.array [] :: stack, .firstItem)
  | .openObject => some (stack, .firstKey)
  | _ => none

/-- One token. -/
def takeToken? (t : Token) : List Frame × Expect → Option (List Frame × Expect)
  | (stack, .value) => takeValue? stack t
  | (stack, .firstItem) =>
    match t, stack with
    | .closeArray, .array _ :: stack => some (deliver (.array []) stack)
    | t, stack => takeValue? stack t
  | (stack, .firstKey) =>
    match t with
    | .closeObject => some (deliver (.object []) stack)
    | .string key => some (stack, .colon [] key)
    | _ => none
  | (stack, .key members) =>
    match t with
    | .string key => some (stack, .colon members key)
    | _ => none
  | (stack, .colon members key) =>
    match t with
    | .colon => some (.object members key :: stack, .value)
    | _ => none
  | (stack, .more) =>
    match t, stack with
    | .comma, .array _ :: _ => some (stack, .value)
    | .comma, .object members _ :: stack => some (stack, .key members)
    | .closeArray, .array items :: stack => some (deliver (.array items.reverse) stack)
    | .closeObject, .object members _ :: stack =>
      some (deliver (.object members.reverse) stack)
    | _, _ => none
  | (_, .nothing _) => none

/-- Run the machine to the end of the tokens. -/
def ofTokens? (state : List Frame × Expect) : List Token → Option Document
  | [] =>
    match state with
    | ([], .nothing d) => some d
    | _ => none
  | t :: rest =>
    match takeToken? t state with
    | some next => ofTokens? next rest
    | none => none

/-- Read a text. -/
def parse? (text : String) : Option Document :=
  (tokens? [] .between text.toList).bind (ofTokens? ([], .value))

/-! ### Values -/

/-- Store a member in place of an older one of the same key. -/
def putMember (key : String) (value : Json) : List (String × Json) → List (String × Json)
  | [] => [(key, value)]
  | (k, v) :: rest => if k = key then (key, value) :: rest else (k, v) :: putMember key value rest

mutual

/-- The value of a document that nests at most `depth` arrays and objects. -/
def toJson (depth : Nat) : Document → Option Json
  | .null => some .null
  | .bool b => some (.bool b)
  | .number l => l.toJson
  | .string s => s.map .string
  | .array items =>
    match depth with
    | 0 => none
    | depth + 1 => (itemsToJson depth items).map .array
  | .object members =>
    match depth with
    | 0 => none
    | depth + 1 => (membersToJson depth [] members).map .object

/-- The values of all items. -/
def itemsToJson (depth : Nat) : List Document → Option (List Json)
  | [] => some []
  | d :: rest =>
    match toJson depth d, itemsToJson depth rest with
    | some j, some js => some (j :: js)
    | _, _ => none

/-- The values of all members, added to those before them. -/
def membersToJson (depth : Nat) (before : List (String × Json)) :
    List (Option String × Document) → Option (List (String × Json))
  | [] => some before
  | (some key, d) :: rest =>
    match toJson depth d with
    | some j => membersToJson depth (putMember key j before) rest
    | none => none
  | (none, _) :: _ => none

end

/-- The nesting that a text may have. -/
def maxDepth : Nat := 127

/-! ### Records -/

/-- The only member with a key; nothing where there are several. -/
def member? (key : String) (members : List (Option String × Document)) :
    Option (Option Document) :=
  match members.filter fun m => m.1 = some key with
  | [] => some none
  | [m] => some (some m.2)
  | _ => none

/-- The slots of the fields `names` of a record, which no member may name twice. -/
def slots? (names : List String) : Document → Option (List (Slot Document))
  | .object members =>
    if members.all fun m => m.1.isSome then
      names.mapM fun name => (member? name members).map .ofMember?
    else none
  | .array items => Slot.ofItems names.length items
  | _ => none

/-- The items of an array. -/
def items? : Document → Option (List Document)
  | .array items => some items
  | _ => none

/-- Read a value that is neither array nor object. -/
def scalar? {α : Type} (read : Json → Option α) (d : Document) : Option α :=
  (d.toJson 0).bind read

end Document

namespace Json

/-- The value that a text denotes. -/
def parse? (text : String) : Option Json :=
  (Document.parse? text).bind (Document.toJson Document.maxDepth)

end Json

end EventScript
