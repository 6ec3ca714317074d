import EventScript.Json.Basic

/-!
# Records and variants in JSON

A record is written as an object, in any order and with any members beside its own, or
as an array of its fields in declaration order. `slots` gives each field what the value
holds for it. Only a field with a default may lie beyond the end of a shorter array; a
field that may be absent is absent only where an object omits it.

A variant is a string, its name, or an object with one member, its name and contents.
Where the contents are fields, they are written as an object.
-/

namespace EventScript

/-- What a written record holds for one of its fields. -/
inductive Slot (υ : Type) where
  /-- The field is written. -/
  | given (value : υ)
  /-- The object has no such member. -/
  | omitted
  /-- The array ends before the field. -/
  | beyond
  deriving Repr

namespace Slot

variable {υ α : Type}

/-- The slots of `count` fields written in order. -/
def ofItems (count : Nat) (items : List υ) : Option (List (Slot υ)) :=
  if items.length ≤ count then
    some (items.map given ++ List.replicate (count - items.length) beyond)
  else none

/-- The slot of a member that an object may hold. -/
def ofMember? : Option υ → Slot υ
  | some value => given value
  | none => omitted

/-- A field that has to be written. -/
def required (read : υ → Option α) : Slot υ → Option α
  | given value => read value
  | _ => none

/-- A field that an object may omit. -/
def optional (read : υ → Option (Option α)) : Slot υ → Option (Option α)
  | given value => read value
  | omitted => some none
  | beyond => none

/-- A field that has a value of its own where it is not written. -/
def withDefault (read : υ → Option α) (fallback : α) : Slot υ → Option α
  | given value => read value
  | _ => some fallback

end Slot

namespace Json

/-- The slots of the fields `names`, or nothing where the value is no such record. -/
def slots (names : List String) : Json → Option (List (Slot Json))
  | object members => some (names.map fun name => .ofMember? (member? name members))
  | array items => Slot.ofItems names.length items
  | _ => none

/-- The slots of the fields of a variant, or nothing where its contents are no object. -/
def variantSlots (names : List String) : Json → Option (List (Slot Json))
  | object members => slots names (object members)
  | _ => none

/-- A value, or `null` for none. -/
def nullable {α : Type} (read : Json → Option α) : Json → Option (Option α)
  | null => some none
  | value => (read value).map some

/-- The name of a variant and its contents, if it has any. -/
def variant? : Json → Option (String × Option Json)
  | string name => some (name, none)
  | object [(name, contents)] => some (name, some contents)
  | _ => none

/-- The name of a variant without contents. -/
def unitVariant? (j : Json) : Option String :=
  match j.variant? with
  | some (name, none) => some name
  | some (name, some null) => some name
  | _ => none

/-- One of finitely many variants without contents, by its name. -/
def enum? {α : Type} (cases : List (String × α)) (j : Json) : Option α :=
  j.unitVariant?.bind fun name => (cases.find? fun c => c.1 = name).map Prod.snd

end Json

end EventScript
