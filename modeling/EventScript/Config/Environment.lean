import EventScript.Config.Basic
import EventScript.Text.Number

/-!
# Settings from the environment

Variables named `EVENT_…` give settings. A value that does not parse is ignored, and the
setting keeps its default.

Specification: `SPEC_FULL.md` §11.3 (`from_env`).
-/

namespace EventScript

/-- Environment variables by name. -/
abbrev Variables := String → Option String

namespace Variables

/-- The variables with one more value. -/
def set (env : Variables) (name value : String) : Variables := fun other =>
  if other = name then some value else env other

/-- Exactly the variables that are listed; an earlier entry hides a later one. -/
def ofList (entries : List (String × String)) : Variables := fun name =>
  (entries.find? fun e => e.1 = name).map Prod.snd

/-- A 64-bit integer. -/
def word? (env : Variables) (name : String) : Option Nat :=
  (env name).bind fun text => (Text.readNat maxWord text).toOption

end Variables

/-- The settings of the scheduler that the environment gives (`from_env`). -/
def RuntimeConfig.ofEnvironment (env : Variables) : RuntimeConfig :=
  { interpreter :=
      { mode := ((env "EVENT_EXECUTION_MODE").bind Mode.ofText?).getD .auto
        poolCapacity := (env.word? "EVENT_POOL_CAPACITY").getD 16
        maxTicks := env.word? "EVENT_MAX_TICKS" }
    tickIntervalMs := ((env.word? "EVENT_TICK_MS").map fun n => max n 1).getD 16
    eventBufferSize := ((env.word? "EVENT_BUFFER").map fun n => max n 1).getD 100
    maxSessions := env.word? "EVENT_MAX_SESSIONS" }

/-- The settings of the player that the environment gives. -/
def PlayerConfig.ofEnvironment (env : Variables) : PlayerConfig :=
  { runtime := .ofEnvironment env
    log :=
      { directory := env "EVENT_LOG_DIR"
        echoed := ((env "EVENT_LOG_STDERR").bind Text.readBool?).getD true } }

end EventScript
