import EventScript.Command.Blob
import EventScript.Diagnostic
import EventScript.Factory.Pool
import EventScript.Factory.Registry
import EventScript.Program.Basic

/-!
# Factories

A factory turns descriptors into commands and whole programs, with instances from its
pool. Parameters are decoded before an instance is taken, so a failed decode leaves the
pool alone.

A program is built leniently from its parts and strictly as a whole: an unknown tag is
dropped and parameters that do not decode are replaced by defaults, each with a
diagnostic, but a list of malformed structure is rejected and its instances go back.

Specification: `SPEC_FULL.md` §3 (Command Registry / Factory), but that §3 takes the instance
before it decodes; §5 for the programs.
-/

namespace EventScript

/-- A registry and a pool. -/
structure Factory where
  registry : Registry := .builtin
  pool : Pool := {}
  deriving Repr, Inhabited

/-- What a factory made, the factory after it, and what there is to report. -/
structure Made (α : Type) where
  result : α
  factory : Factory
  diagnostics : List Diagnostic := []

namespace Factory

/-- The built-in registry and an empty pool. -/
def new (capacity : Nat) : Factory := ⟨.builtin, .new capacity⟩

/-- Put instances back. -/
def release (f : Factory) (cs : List Command) : Factory :=
  { f with pool := f.pool.releaseAll cs }

/-- An instance from the pool, configured with an action. -/
def instantiate (f : Factory) (k : Kind) (a : Action) (enabled : Bool) : Command × Factory :=
  let (c, pool) := f.pool.acquire k
  (c.configure a enabled, { f with pool })

/-- The command of a descriptor (`create_command`). -/
def create (f : Factory) (d : Descriptor) : Made (Except FactoryError Command) :=
  match f.registry.lookup d.tag with
  | none => ⟨.error (.unknownCommandType d.tag), f, [.unknownCommandType d.tag]⟩
  | some k =>
    match Action.decode k d.parameters with
    | .error defect => ⟨.error (.parameterDecode d.tag defect), f, []⟩
    | .ok a =>
      let (c, f) := f.instantiate k a d.enabled
      ⟨.ok c, f, []⟩

/-- The command of a descriptor; defaults take the place of parameters that do not decode, and an
unknown tag gives no command (`create_command_or_default`). -/
def createOrDefault (f : Factory) (d : Descriptor) : Made (Option Command) :=
  match f.create d with
  | ⟨.ok c, f, ds⟩ => ⟨some c, f, ds⟩
  | ⟨.error (.unknownCommandType _), f, ds⟩ => ⟨none, f, ds⟩
  | ⟨.error e, f, ds⟩ =>
    let ds := ds ++ [.usingDefaults e]
    match f.registry.lookup d.tag with
    | none => ⟨none, f, ds⟩
    | some k =>
      let (c, f) := f.instantiate k (.default k) d.enabled
      ⟨some c, f, ds⟩

/-- The descriptor of a command: its configuration, under the tag of its kind
(`create_command_data`). -/
def describe (c : Command) : Descriptor := ⟨c.kind.tag, c.action.encode, c.enabled⟩

/-- The commands of descriptors in order, without those that give none. -/
def createAll (f : Factory) : List Descriptor → Made (List Command)
  | [] => ⟨[], f, []⟩
  | d :: rest =>
    let first := f.createOrDefault d
    let later := first.factory.createAll rest
    ⟨first.result.toList ++ later.result, later.factory, first.diagnostics ++ later.diagnostics⟩

/-- The program of the descriptors that a mode admits (`build_program`). -/
def build (f : Factory) (ds : List Descriptor) (mode : Mode) :
    Made (Except ProgramError Program) :=
  let made := f.createAll (f.registry.admitted mode ds)
  match Program.ofCommands made.result with
  | .ok p => ⟨.ok p, made.factory, made.diagnostics⟩
  | .error e =>
    ⟨.error e, made.factory.release made.result, made.diagnostics ++ [.malformedProgram e]⟩

end Factory

end EventScript
