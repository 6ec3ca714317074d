import EventScript.Command.Error
import EventScript.Factory.Error
import EventScript.Owner
import EventScript.Program.Error

/-!
# Diagnostics

What the library reports while it works: warnings about content that was dropped or
replaced, and errors that point at a defect. A diagnostic is a cause; `level`, `message`
and `fields` say how it is written.

Specification: `SPEC_FULL.md` §11.1 (Logging).
-/

namespace EventScript

/-- How loud a diagnostic is. -/
inductive Level where
  | warning
  | error
  deriving DecidableEq, Repr

/-- Something worth telling about the content or the course of a session. -/
inductive Diagnostic where
  /-- A descriptor names a tag that is not registered. -/
  | unknownCommandType (tag : String)
  /-- A command got default parameters because its own do not decode. -/
  | usingDefaults (cause : FactoryError)
  | malformedProgram (cause : ProgramError)
  | commandFailed (owner : Owner) (index : Nat) (command : String) (cause : CommandError)
  | flowFailed (owner : Owner) (index : Nat) (cause : FlowError)
  | tickLimitExceeded (owner : Owner) (limit : Nat)
  /-- An entry of a script names a type that is not registered. -/
  | unknownScriptType (index : Nat) (tag : String)
  | outputFailed (reason : String)
  deriving DecidableEq, Repr

namespace Diagnostic

/-- The level of a diagnostic. -/
def level : Diagnostic → Level
  | commandFailed _ _ _ cause =>
    if (Fault.severity cause).isInternal then .error else .warning
  | flowFailed _ _ _ => .error
  | _ => .warning

/-- The sentence that opens the record. -/
def message : Diagnostic → String
  | unknownCommandType _ => "unknown command type"
  | usingDefaults _ => "using default parameters"
  | malformedProgram _ => "rejecting malformed program"
  | commandFailed _ _ _ _ => "command failed, continuing with the next one"
  | flowFailed _ _ _ => "flow control failed"
  | tickLimitExceeded _ _ => "session exceeded its tick limit"
  | unknownScriptType _ _ => "script uses an unknown command type"
  | outputFailed _ => "failed to write console output"

/-- The named values of the record. -/
def fields : Diagnostic → List (String × String)
  | unknownCommandType tag => [("tag", tag)]
  | usingDefaults cause => [("error", Fault.message cause)]
  | malformedProgram cause => [("error", Fault.message cause)]
  | commandFailed owner index command cause =>
    [("owner", owner.text), ("index", toString index), ("command", command),
      ("severity", (Fault.severity cause).word), ("code", Fault.code cause),
      ("error", Fault.message cause)]
  | flowFailed owner index cause =>
    [("owner", owner.text), ("index", toString index),
      ("severity", (Fault.severity cause).word), ("code", Fault.code cause),
      ("error", Fault.message cause)]
  | tickLimitExceeded owner limit => [("owner", owner.text), ("limit", toString limit)]
  | unknownScriptType index tag => [("index", toString index), ("tag", tag)]
  | outputFailed reason => [("error", reason)]

end Diagnostic

end EventScript
