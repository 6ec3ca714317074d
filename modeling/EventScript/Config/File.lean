import EventScript.Config.Basic
import EventScript.Toml.Document

/-!
# Configuration files

A configuration file is a TOML document. What it does not give keeps its default; keys
that no setting has are ignored.

Specification: `SPEC_FULL.md` §11.3 (the `--config` file).
-/

namespace EventScript

/-- Why a configuration file gives no settings. -/
inductive ConfigError where
  | unreadable
  | invalid
  deriving DecidableEq, Repr

namespace ConfigError

/-- What went wrong. -/
def summary : ConfigError → String
  | .unreadable => "failed to read config"
  | .invalid => "invalid config"

/-- What went wrong, and with which file. -/
def message (e : ConfigError) (path : String) : String := s!"{e.summary}: {path}"

end ConfigError

/-- The settings in a file, given its text if it can be read. -/
def PlayerConfig.ofFile (text : Option String) : Except ConfigError PlayerConfig :=
  match text with
  | none => .error .unreadable
  | some text =>
    match (Toml.parse? text).bind PlayerConfig.ofJson? with
    | some config => .ok config
    | none => .error .invalid

end EventScript
