import EventScript.Command.Kind
import EventScript.Factory.Descriptor
import EventScript.Factory.Mode
import EventScript.Table

/-!
# Registries

A registry maps type tags to kinds. It starts with the tag of every kind; further tags
may be registered as names for a kind, and a registered tag may be given a new one.

Specification: `SPEC_FULL.md` §3 (Command Registry / Factory).
-/

namespace EventScript

/-- Kinds by type tag. -/
structure Registry where
  kinds : Table String Kind
  deriving Repr

namespace Registry

/-- The registry of the tags of all kinds. -/
def builtin : Registry := ⟨Table.ofList (Kind.all.map fun k => (k.tag, k))⟩

instance : Inhabited Registry := ⟨builtin⟩

/-- The kind registered under a tag. -/
def lookup (r : Registry) (tag : String) : Option Kind := r.kinds.find? tag

/-- Register a tag for a kind; the answer is what it stood for before. -/
def register (r : Registry) (tag : String) (k : Kind) : Option Kind × Registry :=
  (r.lookup tag, ⟨r.kinds.insert tag k⟩)

/-- Register tags in order. -/
def registerAll (r : Registry) (aliases : List (String × Kind)) : Registry :=
  aliases.foldl (fun r a => (r.register a.1 a.2).2) r

/-- The tag belongs to a kind that is for timelines only; an unknown tag does not
(`is_cutscene_only`). -/
def isCutsceneOnly (r : Registry) (tag : String) : Bool :=
  match r.lookup tag with
  | some k => k.isCutsceneOnly
  | none => false

/-- Number of tags. -/
def size (r : Registry) : Nat := r.kinds.size

/-- Tags in ascending order. -/
def tags (r : Registry) : List String := r.kinds.sorted.map Prod.fst

/-- The descriptors that a mode admits, in order (`filter_commands_by_mode`). -/
def admitted (r : Registry) (mode : Mode) (ds : List Descriptor) : List Descriptor :=
  ds.filter fun d => mode.admits (r.isCutsceneOnly d.tag)

end Registry

end EventScript
