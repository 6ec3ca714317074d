import EventScript.Command.Params
import EventScript.Factory.Basic

/-!
# Scripts

A script is a JSON record: a name, an owner and a list of entries, each with a type tag,
an enabled flag and parameters. An entry without parameters, or with `null`, has the
default parameters of its kind. A script becomes descriptors, so it is built like any
other content; the type of an entry that is not registered is kept, with an empty blob.

Specification: `SPEC_FULL.md` §10.1 (the script format).
-/

namespace EventScript

/-- One command of a script. -/
structure ScriptEntry where
  typeTag : String
  enabled : Bool := true
  params : Option Json := none
  deriving Repr

/-- A script. -/
structure Script where
  name : Option String := none
  /-- The event that owns the session, if the script says. -/
  owner : Option Owner := none
  entries : List ScriptEntry
  deriving Repr

/-- The first entry whose parameters its kind does not take. -/
structure ScriptParamsError where
  index : Nat
  typeTag : String
  deriving DecidableEq, Repr

/-- The text of the error. -/
def ScriptParamsError.message (e : ScriptParamsError) : String :=
  s!"invalid params for `{e.typeTag}` at entry {e.index}"

namespace ScriptEntry

/-- Read an entry that may nest `depth` further arrays and objects. -/
def ofDocument? (depth : Nat) (d : Document) : Option ScriptEntry := do
  match ← d.slots? ["type", "enabled", "params"] with
  | [typeTag, enabled, params] =>
    return { typeTag := ← typeTag.required (Document.scalar? Json.string?)
             enabled := ← enabled.withDefault (Document.scalar? Json.bool?) true
             params := ← params.withDefault
               (fun d => (d.toJson depth).bind (Json.nullable some)) none }
  | _ => none

/-- The descriptor of an entry, or nothing where its parameters are refused. -/
def toDescriptor? (r : Registry) (e : ScriptEntry) : Option Descriptor :=
  match r.lookup e.typeTag with
  | none => some ⟨e.typeTag, [], e.enabled⟩
  | some k =>
    let action :=
      match e.params with
      | none => some (Action.default k)
      | some params => Action.ofParams? k params
    action.map fun a => ⟨a.kind.tag, a.encode, e.enabled⟩

end ScriptEntry

namespace Script

/-- Read the record of a script. -/
def ofDocument? (d : Document) : Option Script := do
  match ← d.slots? ["name", "owner", "commands"] with
  | [name, owner, commands] =>
    let entries (d : Document) : Option (List ScriptEntry) :=
      d.items?.bind fun items => items.mapM (ScriptEntry.ofDocument? (Document.maxDepth - 3))
    return { name := ← name.withDefault (Document.scalar? (Json.nullable Json.string?)) none
             owner := ← owner.withDefault
               (Document.scalar? (Json.nullable fun j => j.uint32?.map Owner.mk)) none
             entries := ← commands.required entries }
  | _ => none

/-- Read the text of a script. -/
def ofText? (text : String) : Option Script := (Document.parse? text).bind ofDocument?

/-- The owner that the script says, or else `fallback`. -/
def ownerOr (s : Script) (fallback : Owner) : Owner := s.owner.getD fallback

/-- The descriptors of entries, the first of which stands at `index`, and what there is
to report up to the first entry that is refused. -/
def describe (r : Registry) (index : Nat) :
    List ScriptEntry → Except ScriptParamsError (List Descriptor) × List Diagnostic
  | [] => (.ok [], [])
  | e :: rest =>
    match e.toDescriptor? r with
    | none => (.error ⟨index, e.typeTag⟩, [])
    | some d =>
      let reported :=
        if (r.lookup e.typeTag).isSome then [] else [.unknownScriptType index e.typeTag]
      match describe r (index + 1) rest with
      | (.ok ds, later) => (.ok (d :: ds), reported ++ later)
      | (.error err, later) => (.error err, reported ++ later)

/-- The descriptors of a script, one for each entry. -/
def toDescriptors (s : Script) (r : Registry) :
    Except ScriptParamsError (List Descriptor) × List Diagnostic :=
  describe r 0 s.entries

end Script

end EventScript
