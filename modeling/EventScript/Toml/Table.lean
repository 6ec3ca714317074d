import EventScript.Json.Basic

/-!
# TOML tables

What a document has defined so far. A table is opened by its header, by the header of a
table inside it, or by a dotted key. A header may name only a table that no header and no
dotted key has opened; a dotted key may enter only tables that no header has opened, and
adds only to tables that dotted keys have opened. A key is defined once.

Specification: `SPEC_FULL.md` §11.3 (the `--config` file).
-/

namespace EventScript.Toml

/-- What opened a table. -/
inductive Origin where
  /-- A header of its own. -/
  | header
  /-- The header of a table inside it. -/
  | implied
  | dotted
  deriving DecidableEq, Repr

/-- What a key stands for. -/
inductive Item where
  | value (value : Json)
  | table (origin : Origin) (entries : List (String × Item))
  /-- Tables under one header, the newest apart from those before it, newest first. -/
  | series (newest : List (String × Item)) (older : List (List (String × Item)))
  deriving Repr

/-- Keys and what they stand for, in the order of definition. -/
abbrev Entries := List (String × Item)

namespace Entries

/-- What a key stands for. -/
def find? (key : String) : Entries → Option Item
  | [] => none
  | (k, item) :: rest => if k = key then some item else find? key rest

/-- Let a key stand for something else, or add it. -/
def put (key : String) (item : Item) : Entries → Entries
  | [] => [(key, item)]
  | (k, old) :: rest =>
    if k = key then (key, item) :: rest else (k, old) :: put key item rest

/-- Change the table at a path, given what opened it. A missing table is opened by `opened`;
`enter` says which tables may be passed. -/
def update (opened : Origin) (enter : Origin → Bool)
    (change : Origin → Entries → Option Entries) :
    List String → Origin → Entries → Option Entries
  | [], origin, es => change origin es
  | key :: path, _, es =>
    match find? key es with
    | none =>
      (update opened enter change path opened []).map fun t => put key (.table opened t) es
    | some (.value _) => none
    | some (.table origin inner) =>
      if enter origin then
        (update opened enter change path origin inner).map fun t => put key (.table origin t) es
      else none
    | some (.series newest older) =>
      (update opened enter change path .header newest).map fun t => put key (.series t older) es

/-- Define a key of one or more parts in a table. -/
def define (key : List String) (value : Json) (es : Entries) : Option Entries :=
  let add (origin : Origin) (es : Entries) : Option Entries :=
    match key.getLast? with
    | none => none
    | some name =>
      if key.length ≠ 1 ∧ origin ≠ .dotted then none
      else if (find? name es).isSome then none
      else some (put name (.value value) es)
  update .dotted (fun origin => origin ≠ .header) add key.dropLast .header es

/-- Define a key in the table at a path. -/
def defineIn (path : List String) (key : List String) (value : Json) (es : Entries) :
    Option Entries :=
  update .implied (fun _ => true) (fun _ es => define key value es) path .header es

/-- Change what the last part of a header's path stands for. -/
def atHeader (path : List String) (change : Option Item → Option Item) (es : Entries) :
    Option Entries :=
  match path.getLast? with
  | none => none
  | some name =>
    update .implied (fun _ => true)
      (fun _ es => (change (find? name es)).map fun item => put name item es)
      path.dropLast .header es

/-- Open a table by its header. -/
def openTable (path : List String) (es : Entries) : Option Entries :=
  let change : Option Item → Option Item
    | none => some (.table .header [])
    | some (.table .implied entries) => some (.table .header entries)
    | _ => none
  atHeader path change es

/-- Add a table to those of a header. -/
def appendTable (path : List String) (es : Entries) : Option Entries :=
  let change : Option Item → Option Item
    | none => some (.series [] [])
    | some (.series newest older) => some (.series [] (newest :: older))
    | _ => none
  atHeader path change es

end Entries

mutual

/-- What a key stands for, as a JSON value. -/
def Item.toJson : Item → Json
  | .value value => value
  | .table _ entries => .object (membersOf entries)
  | .series newest older => .array (.object (membersOf newest) :: objectsOf older).reverse

/-- The members that entries define. -/
def membersOf : List (String × Item) → List (String × Json)
  | [] => []
  | (key, item) :: rest => (key, item.toJson) :: membersOf rest

/-- The objects that tables define. -/
def objectsOf : List (List (String × Item)) → List Json
  | [] => []
  | entries :: rest => .object (membersOf entries) :: objectsOf rest

end

end EventScript.Toml
