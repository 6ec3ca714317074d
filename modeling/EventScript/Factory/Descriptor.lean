import EventScript.Json.Document

/-!
# Descriptors

An authored instruction: a type tag, an opaque blob of parameters and an enabled flag.

Specification: `SPEC_FULL.md` §2 (descriptors).
-/

namespace EventScript

/-- An authored instruction. -/
structure Descriptor where
  tag : String
  parameters : List UInt8 := []
  enabled : Bool := true
  deriving DecidableEq, Repr, Inhabited

namespace Descriptor

/-- Read the record of a descriptor. -/
def ofDocument? (d : Document) : Option Descriptor := do
  match ← d.slots? ["type_tag", "parameters", "enabled"] with
  | [tag, parameters, enabled] =>
    let bytes (d : Document) : Option (List UInt8) :=
      d.items?.bind fun items => items.mapM (Document.scalar? Json.uint8?)
    return { tag := ← tag.required (Document.scalar? Json.string?)
             parameters := ← parameters.withDefault bytes []
             enabled := ← enabled.withDefault (Document.scalar? Json.bool?) true }
  | _ => none

/-- Read the text of a descriptor. -/
def ofText? (text : String) : Option Descriptor := (Document.parse? text).bind ofDocument?

end Descriptor

end EventScript
