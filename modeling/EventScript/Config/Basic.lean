import EventScript.Factory.Mode

/-!
# Configuration

The settings of interpreters, of the scheduler and of the log. Every setting has a
default, so a record that gives none of them is the default configuration.

Specification: `SPEC_FULL.md` §11.3 (Configuration).
-/

namespace EventScript

/-- Settings that all sessions share. -/
structure InterpreterConfig where
  /-- The filter applied before a program is built. -/
  mode : Mode := .auto
  /-- Idle instances that the pool keeps for each kind. -/
  poolCapacity : Nat := 16
  /-- Ticks after which a session is faulted. -/
  maxTicks : Option Nat := none
  deriving DecidableEq, Repr, Inhabited

/-- Settings of the scheduler, its sessions and its tick source. -/
structure RuntimeConfig where
  interpreter : InterpreterConfig := {}
  /-- The period of the tick source, in milliseconds. -/
  tickIntervalMs : Nat := 16
  /-- Events that the channel of session events keeps. -/
  eventBufferSize : Nat := 100
  /-- Sessions that may be active at once. -/
  maxSessions : Option Nat := none
  deriving DecidableEq, Repr, Inhabited

/-- Settings of the log. -/
structure LogConfig where
  directory : Option String := none
  /-- The log is written to the error output as well. -/
  echoed : Bool := true
  deriving DecidableEq, Repr, Inhabited

/-- Settings of the player. -/
structure PlayerConfig where
  runtime : RuntimeConfig := {}
  log : LogConfig := {}
  deriving DecidableEq, Repr, Inhabited

namespace InterpreterConfig

/-- The settings as JSON. -/
def toJson (c : InterpreterConfig) : Json :=
  .object [("execution_mode", .string c.mode.tag),
    ("pool_capacity_per_kind", .ofNat c.poolCapacity),
    ("max_ticks_per_session", .ofOption .ofNat c.maxTicks)]

/-- Read the settings. -/
def ofJson? (j : Json) : Option InterpreterConfig := do
  match ← j.slots ["execution_mode", "pool_capacity_per_kind", "max_ticks_per_session"] with
  | [mode, poolCapacity, maxTicks] =>
    return { mode := ← mode.withDefault Mode.ofJson? .auto
             poolCapacity := ← poolCapacity.withDefault Json.word? 16
             maxTicks := ← maxTicks.withDefault (Json.nullable Json.word?) none }
  | _ => none

end InterpreterConfig

namespace RuntimeConfig

/-- The period of the tick source is at least a millisecond. -/
def tickInterval (c : RuntimeConfig) : Nat := max c.tickIntervalMs 1

/-- The settings as JSON. -/
def toJson (c : RuntimeConfig) : Json :=
  .object [("interpreter", c.interpreter.toJson), ("tick_interval_ms", .ofNat c.tickIntervalMs),
    ("event_buffer_size", .ofNat c.eventBufferSize),
    ("max_sessions", .ofOption .ofNat c.maxSessions)]

/-- Read the settings. -/
def ofJson? (j : Json) : Option RuntimeConfig := do
  match ← j.slots ["interpreter", "tick_interval_ms", "event_buffer_size", "max_sessions"] with
  | [interpreter, tickIntervalMs, eventBufferSize, maxSessions] =>
    return { interpreter := ← interpreter.withDefault InterpreterConfig.ofJson? {}
             tickIntervalMs := ← tickIntervalMs.withDefault Json.word? 16
             eventBufferSize := ← eventBufferSize.withDefault Json.word? 100
             maxSessions := ← maxSessions.withDefault (Json.nullable Json.word?) none }
  | _ => none

end RuntimeConfig

namespace LogConfig

/-- The settings as JSON. -/
def toJson (c : LogConfig) : Json :=
  .object [("directory", .ofOption .string c.directory), ("stderr", .bool c.echoed)]

/-- Read the settings. -/
def ofJson? (j : Json) : Option LogConfig := do
  match ← j.slots ["directory", "stderr"] with
  | [directory, echoed] =>
    return { directory := ← directory.withDefault (Json.nullable Json.string?) none
             echoed := ← echoed.withDefault Json.bool? true }
  | _ => none

end LogConfig

namespace PlayerConfig

/-- The settings as JSON. -/
def toJson (c : PlayerConfig) : Json :=
  .object [("runtime", c.runtime.toJson), ("log", c.log.toJson)]

/-- Read the settings. -/
def ofJson? (j : Json) : Option PlayerConfig := do
  match ← j.slots ["runtime", "log"] with
  | [runtime, log] =>
    return { runtime := ← runtime.withDefault RuntimeConfig.ofJson? {}
             log := ← log.withDefault LogConfig.ofJson? {} }
  | _ => none

end PlayerConfig

end EventScript
