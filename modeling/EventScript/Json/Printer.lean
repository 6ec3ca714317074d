import EventScript.Json.Basic

/-!
# Printed JSON

Two layouts. `compact` writes a value without any blank. `pretty` is the layout of a
printed state: one member or item a line, two blanks for each level, and an empty object
or array on one line.
-/

namespace EventScript

namespace Json

/-- Four hexadecimal digits of a code unit below 256. -/
def hexEscape (n : Nat) : List Char :=
  ['\\', 'u', '0', '0', Nat.digitChar (n / 16), Nat.digitChar (n % 16)]

/-- A character of a string literal. -/
def escape (c : Char) : List Char :=
  if c = '"' then ['\\', '"']
  else if c = '\\' then ['\\', '\\']
  else if c = '\n' then ['\\', 'n']
  else if c = '\r' then ['\\', 'r']
  else if c = '\t' then ['\\', 't']
  else if c.toNat = 8 then ['\\', 'b']
  else if c.toNat = 12 then ['\\', 'f']
  else if c.toNat < 32 then hexEscape c.toNat
  else [c]

/-- A string literal. -/
def quote (s : String) : String :=
  String.ofList ('"' :: s.toList.flatMap escape ++ ['"'])

mutual

/-- The value without blanks. -/
def compact : Json → String
  | null => "null"
  | bool true => "true"
  | bool false => "false"
  | int n => toString n
  | real literal => literal
  | string s => quote s
  | array [] => "[]"
  | array (j :: rest) => "[" ++ compact j ++ compactItems rest ++ "]"
  | object [] => "\x7b\x7d"
  | object ((key, j) :: rest) =>
    "\x7b" ++ quote key ++ ":" ++ compact j ++ compactMembers rest ++ "\x7d"

/-- The items after the first. -/
def compactItems : List Json → String
  | [] => ""
  | j :: rest => "," ++ compact j ++ compactItems rest

/-- The members after the first. -/
def compactMembers : List (String × Json) → String
  | [] => ""
  | (key, j) :: rest => "," ++ quote key ++ ":" ++ compact j ++ compactMembers rest

end

/-- The blanks that open a line. -/
def indent (level : Nat) : String := String.ofList (List.replicate (2 * level) ' ')

mutual

/-- The value at a level of indentation. -/
def pretty (level : Nat) : Json → String
  | null => "null"
  | bool true => "true"
  | bool false => "false"
  | int n => toString n
  | real literal => literal
  | string s => quote s
  | array [] => "[]"
  | array (j :: rest) =>
    "[\n" ++ indent (level + 1) ++ pretty (level + 1) j ++ prettyItems (level + 1) rest
      ++ "\n" ++ indent level ++ "]"
  | object [] => "\x7b\x7d"
  | object ((key, j) :: rest) =>
    "\x7b\n" ++ indent (level + 1) ++ quote key ++ ": " ++ pretty (level + 1) j
      ++ prettyMembers (level + 1) rest ++ "\n" ++ indent level ++ "\x7d"

/-- The items after the first. -/
def prettyItems (level : Nat) : List Json → String
  | [] => ""
  | j :: rest => ",\n" ++ indent level ++ pretty level j ++ prettyItems level rest

/-- The members after the first. -/
def prettyMembers (level : Nat) : List (String × Json) → String
  | [] => ""
  | (key, j) :: rest =>
    ",\n" ++ indent level ++ quote key ++ ": " ++ pretty level j ++ prettyMembers level rest

end

end Json

end EventScript
