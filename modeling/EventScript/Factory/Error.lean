import EventScript.Blob.Defect
import EventScript.Severity

/-!
# Errors of the factory

Why no command comes of a descriptor.

Specification: `SPEC_FULL.md` §3 (Command Registry / Factory) and §11.2 (Error handling).
-/

namespace EventScript

/-- Why a descriptor gives no command. -/
inductive FactoryError where
  | unknownCommandType (tag : String)
  | parameterDecode (tag : String) (defect : BlobDefect)
  deriving DecidableEq, Repr

instance : Fault FactoryError where
  code
    | .unknownCommandType _ => "FACTORY_UNKNOWN_COMMAND_TYPE"
    | .parameterDecode _ _ => "FACTORY_PARAMETER_DECODE"
  message
    | .unknownCommandType tag => s!"unknown command type `{tag}`"
    | .parameterDecode tag defect =>
      s!"failed to decode parameters of `{tag}`: {defect.message}"
  severity _ := .recoverable

end EventScript
