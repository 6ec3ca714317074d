import EventScript.Toml.Literal
import EventScript.Toml.Table

/-!
# TOML documents

A document is a list of lines: a header that names a table, a key and its value, or
nothing, each with an optional comment. Arrays may go on over several lines, inline tables
may not. A document denotes one JSON object.

Each reader takes the text that is left and returns what is left after it. The number that
bounds the recursion is more than the length of the text.

Specification: `SPEC_FULL.md` §11.3 (the `--config` file).
-/

namespace EventScript.Toml

/-- The nesting of arrays, inline tables and parts of a key that a document may have. -/
def maxDepth : Nat := 79

/-- Skip blanks. -/
def skipBlanks (cs : List Char) : List Char := cs.dropWhile isBlank

/-- Skip blanks, comments and line ends; `comment` says that a comment has begun. A
character that may not stand there is left. -/
def skipLines (comment : Bool) : List Char → List Char
  | [] => []
  | '\n' :: rest => skipLines false rest
  | '\r' :: '\n' :: rest => skipLines false rest
  | c :: rest =>
    if comment then if isText c then skipLines true rest else c :: rest
    else if isBlank c then skipLines false rest
    else if c = '#' then skipLines true rest
    else c :: rest

/-- The end of a line, after blanks and a comment. -/
def lineEnd? (cs : List Char) : Option (List Char) :=
  let cs :=
    match skipBlanks cs with
    | '#' :: comment => comment.dropWhile isText
    | cs => cs
  match cs with
  | [] => some []
  | '\n' :: rest => some rest
  | '\r' :: '\n' :: rest => some rest
  | _ => none

/-- A character of a key without quotes. -/
def isKeyChar (c : Char) : Bool := c.isAlphanum || c = '_' || c = '-'

/-- One part of a key. -/
def keyPart? : List Char → Option (String × List Char)
  | '"' :: rest => basic? [] rest
  | '\x27' :: rest => verbatim? rest
  | cs =>
    match cs.takeWhile isKeyChar with
    | [] => none
    | part => some (String.ofList part, cs.dropWhile isKeyChar)

/-- The parts of a key, with blanks around each, joined by dots. -/
def key? : Nat → List Char → Option (List String × List Char)
  | 0, _ => none
  | fuel + 1, cs =>
    match keyPart? (skipBlanks cs) with
    | none => none
    | some (part, cs) =>
      match skipBlanks cs with
      | '.' :: rest => (key? fuel rest).map fun r => (part :: r.1, r.2)
      | cs => some ([part], cs)

mutual

/-- A value that nests at most `depth` arrays and inline tables. -/
def value? (depth : Nat) : Nat → List Char → Option (Json × List Char)
  | 0, _ => none
  | fuel + 1, cs =>
    match cs, depth with
    | '"' :: rest, _ => (basic? [] rest).map fun r => (.string r.1, r.2)
    | '\x27' :: rest, _ => (verbatim? rest).map fun r => (.string r.1, r.2)
    | '[' :: rest, depth + 1 => (items? depth fuel [] rest).map fun r => (.array r.1, r.2)
    | '\x7b' :: rest, depth + 1 =>
      match skipBlanks rest with
      | '\x7d' :: rest => some (.object [], rest)
      | rest => (pairs? depth fuel [] rest).map fun r => (.object (membersOf r.1), r.2)
    | cs, _ => (ofWord? (cs.takeWhile isWordChar)).map fun j => (j, cs.dropWhile isWordChar)

/-- The items of an array up to its end, after those in `read` (in reverse). -/
def items? (depth : Nat) : Nat → List Json → List Char → Option (List Json × List Char)
  | 0, _, _ => none
  | fuel + 1, read, cs =>
    match skipLines false cs with
    | ']' :: rest => some (read.reverse, rest)
    | cs =>
      match value? depth fuel cs with
      | none => none
      | some (item, cs) =>
        match skipLines false cs with
        | ',' :: rest => items? depth fuel (item :: read) rest
        | ']' :: rest => some ((item :: read).reverse, rest)
        | _ => none

/-- The keys and values of an inline table up to its end, added to those before them. -/
def pairs? (depth : Nat) : Nat → Entries → List Char → Option (Entries × List Char)
  | 0, _, _ => none
  | fuel + 1, es, cs =>
    match key? maxDepth cs with
    | some (key, '=' :: cs) =>
      match value? depth fuel (skipBlanks cs) with
      | none => none
      | some (value, cs) =>
        match es.define key value, skipBlanks cs with
        | some es, ',' :: rest => pairs? depth fuel es rest
        | some es, '\x7d' :: rest => some (es, rest)
        | _, _ => none
    | _ => none

end

/-- A key and its value, up to the end of the line. -/
def pair? (cs : List Char) : Option ((List String × Json) × List Char) :=
  match key? maxDepth cs with
  | some (key, '=' :: cs) => do
    let (value, cs) ← value? maxDepth (2 * cs.length + 2) (skipBlanks cs)
    let rest ← lineEnd? cs
    return ((key, value), rest)
  | _ => none

/-- The lines of a document, added to what is defined before them; `path` is what the last
header named. -/
def lines? : Nat → Entries → List String → List Char → Option Entries
  | 0, _, _, _ => none
  | fuel + 1, es, path, cs =>
    match skipBlanks cs with
    | [] => some es
    | '[' :: '[' :: rest =>
      match key? maxDepth rest with
      | some (path, ']' :: ']' :: rest) =>
        match es.appendTable path, lineEnd? rest with
        | some es, some rest => lines? fuel es path rest
        | _, _ => none
      | _ => none
    | '[' :: rest =>
      match key? maxDepth rest with
      | some (path, ']' :: rest) =>
        match es.openTable path, lineEnd? rest with
        | some es, some rest => lines? fuel es path rest
        | _, _ => none
      | _ => none
    | cs =>
      match lineEnd? cs with
      | some rest => lines? fuel es path rest
      | none =>
        match pair? cs with
        | none => none
        | some ((key, value), rest) =>
          match es.defineIn path key value with
          | some es => lines? fuel es path rest
          | none => none

/-- The value of a document. A byte order mark may stand before it. -/
def parse? (text : String) : Option Json :=
  let cs :=
    match text.toList with
    | '\ufeff' :: rest => rest
    | cs => cs
  (lines? (cs.length + 1) [] [] cs).map fun es => .object (membersOf es)

end EventScript.Toml
